import Mathlib.Logic.Relation
import Trazo.Proofs.Board.Operation
import Trazo.Proofs.Session.Lifecycle

/-!
What a session remembers of its runs, after any history.

The last result and the last look are of the same run as long as runs return. A run that raises is
forgotten only in part: its start has cleared the last look, but the result of the run before it
stays.
-/

namespace Trazo.Session

open Relation (ReflTransGen)

variable {ε : Type} {s t : Session}

/-! ### Between runs -/

/-- The board is changed, or a look is put back. -/
inductive Touches (s : Session) : Session → Prop
  | board (b : Board) : Touches s { s with board := b }
  | showInitial {t : Session} {done : Bool} (h : s.showInitial = .ok (done, t)) : Touches s t
  | showFinal {t : Session} {done : Bool} (h : s.showFinal = .ok (done, t)) : Touches s t

/-- All that can be done to a session but to run a program. A request to stop changes nothing in the
session itself. -/
inductive Works (s t : Session) : Prop
  | touch (h : Touches s t)
  | reset (h : s.reset = .ok t)

/-- The observer works on the session with its own tools, and may ask for a stop or raise. -/
def Observer.Works {σ : Type} (observe : Observer σ ε) : Prop :=
  ∀ st s, ReflTransGen Session.Works s (observe st s).session

lemma memory_of_show {look : Option Snapshot} {done : Bool} (h : s.show? look = .ok (done, t)) :
    t.memory = s.memory := by
  unfold show? at h
  split at h
  · cases h
    rfl
  · split at h
    · cases h
      rfl
    · obtain ⟨b, -, h⟩ := exists_of_bind h
      cases h
      rfl

lemma Touches.memory (h : Touches s t) : t.memory = s.memory := by
  cases h with
  | board b => rfl
  | showInitial h | showFinal h => exact memory_of_show h

lemma memory_of_reset (h : s.reset = .ok t) :
    t.memory = { s.memory with initial := none, final := none, last := none } := by
  unfold reset at h
  obtain ⟨b, -, h⟩ := exists_of_bind h
  dsimp only at h
  split at h
  · cases h
    rfl
  · split at h
    · obtain ⟨after, -, h⟩ := exists_of_bind h
      cases h
      rfl
    · cases h
      rfl

lemma final_of_works (h : Works s t) (hs : s.memory.final = none) : t.memory.final = none := by
  cases h with
  | touch h => rw [h.memory, hs]
  | reset h => rw [memory_of_reset h]

/-! ### Histories -/

/-- What a run returned or raised, and the board that it left. -/
structure Record (ε : Type) where
  result : Except (Failure ε) Run.Result
  board : Board

/-- The session can be reached, and the record is of its latest run since it was new or reset. -/
inductive Reached : Session → Option (Record ε) → Prop
  | new (board : Board) (settings : Settings) :
      Reached { board := board, settings := settings } none
  | touch {s t : Session} {latest : Option (Record ε)} (hs : Reached s latest)
      (h : Touches s t) : Reached t latest
  | reset {s t : Session} {latest : Option (Record ε)} (hs : Reached s latest)
      (h : s.reset = .ok t) : Reached t none
  | refuse {σ : Type} {s : Session} {latest : Option (Record ε)} {source : String} {speed : Value}
      {observe : Observer σ ε} {st : σ} (hs : Reached s latest)
      (hp : s.board.phase ≠ .editing) :
      Reached (s.run source speed observe st).session latest
  | run {σ : Type} {s : Session} {latest : Option (Record ε)} {source : String} {speed : Value}
      {observe : Observer σ ε} {st : σ} (hs : Reached s latest)
      (hp : s.board.phase = .editing) (ho : observe.Works) :
      Reached (s.run source speed observe st).session
        (some ⟨(s.run source speed observe st).result,
          (s.run source speed observe st).session.board⟩)

/-- The memory is that of the latest run. -/
def Memory.Describes (m : Memory) : Option (Record ε) → Prop
  | none => m.last = none ∧ m.final = none
  | some ⟨.ok r, b⟩ => m.last = some r ∧ m.final = if r.success then some b.snapshot else none
  | some ⟨.error _, _⟩ => m.final = none

lemma final_of_worked (h : ReflTransGen Works s t) (hs : s.memory.final = none) :
    t.memory.final = none := by
  induction h with
  | refl => exact hs
  | tail _ hstep ih => exact final_of_works hstep ih

/-- While a run is open there is no last look, whatever the observer does. -/
lemma final_executing {σ : Type} {observe : Observer σ ε} (ho : observe.Works) (s : Session)
    (e : Run.Executor) (st : σ) : (s.executing e observe st).memory.final = none := by
  refine Run.Executor.run_keeps (I := fun (st : σ × Memory) _ => st.2.final = none) ?_ rfl
  rintro ⟨st, m⟩ b c line shown hm -
  exact final_of_worked (ho st { board := shown, settings := s.settings, memory := m }) hm

/-- A session in which the last look was cleared and a run is closed describes that run. -/
lemma describes_conclude (hs : s.memory.final = none)
    (outcome : Except (Failure ε) Run.Result) :
    (s.conclude outcome).2.memory.Describes
      (some ⟨(s.conclude outcome).1, (s.conclude outcome).2.board⟩) := by
  rcases conclude_cases s outcome with hc | ⟨-, d, hc⟩
  · rw [hc]
    cases outcome with
    | error f => exact hs
    | ok r =>
      refine ⟨rfl, ?_⟩
      rw [final_closed, hs]
      rfl
  · rw [hc]
    exact hs

lemma describes_run {σ : Type} {source : String} {speed : Value} {observe : Observer σ ε} {st : σ}
    (hp : s.board.phase = .editing) (ho : observe.Works) :
    (s.run source speed observe st).session.memory.Describes
      (some ⟨(s.run source speed observe st).result,
        (s.run source speed observe st).session.board⟩) := by
  have hends := ends_run s source speed observe st
  generalize s.run source speed observe st = after at hends ⊢
  cases hends with
  | refused hn => exact absurd hp hn
  | rejected => exact ⟨rfl, rfl⟩
  | abandoned => exact rfl
  | @executed e logs _ _ => exact describes_conclude (final_executing ho s e st) _

/-- What is remembered is of the latest run. -/
lemma describes_of_reached {latest : Option (Record ε)} (h : Reached s latest) :
    s.memory.Describes latest := by
  induction h with
  | new => exact ⟨rfl, rfl⟩
  | touch _ ht ih => rwa [ht.memory]
  | reset _ hr =>
    rw [memory_of_reset hr]
    exact ⟨rfl, rfl⟩
  | refuse _ hp ih => rwa [run_of_not_editing hp]
  | run _ hp ho => exact describes_run hp ho

/-- A run leaves the settings of the session alone. -/
lemma settings_run {σ : Type} (s : Session) (source : String) (speed : Value)
    (observe : Observer σ ε) (st : σ) :
    (s.run source speed observe st).session.settings = s.settings := by
  have hends := ends_run s source speed observe st
  generalize s.run source speed observe st = after at hends ⊢
  cases hends with
  | refused | rejected | abandoned => rfl
  | @executed e logs _ _ =>
    rcases conclude_cases (s.executing e observe st) (s.executed e observe st).outcome with
      hc | ⟨-, d, hc⟩
    all_goals
      rw [hc]
      rfl

lemma Observer.Watches.works {σ : Type} {observe : Observer σ ε} (hw : observe.Watches) :
    observe.Works := by
  intro st s
  rw [hw st s]

/-! ### Results that go stale -/

/-- The last result is there and is a success. -/
def Memory.Succeeded (m : Memory) : Prop := ∃ r, m.last = some r ∧ r.success = true

/-- The latest run has raised, so that it has no result. -/
def Raised (latest : Option (Record ε)) : Prop := ∃ f b, latest = some ⟨.error f, b⟩

/-- A run that raises leaves the last result as it was, if the observer only watches. -/
lemma last_of_raised {σ : Type} {source : String} {speed : Value} {observe : Observer σ ε} {st : σ}
    {f : Failure ε} (hw : observe.Watches)
    (hf : (s.run source speed observe st).result = .error f) :
    (s.run source speed observe st).session.memory.last = s.memory.last := by
  have hends := ends_run s source speed observe st
  generalize s.run source speed observe st = after at hends hf ⊢
  cases hends with
  | refused | abandoned => rfl
  | rejected => cases hf
  | @executed e logs _ _ =>
    obtain ⟨hphase, hmemory⟩ := executed_of_watches hw s e st
    rcases conclude_cases (s.executing e observe st) (s.executed e observe st).outcome with
      hc | ⟨hn, -⟩
    · rw [hc] at hf ⊢
      have houtcome : (s.executed e observe st).outcome = .error f := hf
      have hlast := congrArg Memory.last hmemory
      rw [houtcome]
      exact hlast
    · exact absurd hphase hn

/-- The empty program succeeds on any board, and leaves it as it is. -/
lemma run_empty {observe : Observer Unit String} (hw : observe.Watches)
    (hp : s.board.phase = .editing) (hs : s.settings = {}) :
    let after := s.run "programa\x7b\x7d" .null observe ()
    after.result = .ok { success := true, steps := 0 } ∧
      after.session.board = { s.board with phase := .finished } := by
  have hsource : Program.ofSource "programa\x7b\x7d" 1000000 100 =
      .ok { main := some ⟨[], 1⟩ } := by
    unfold Program.ofSource
    conv in tokenize _ _ => cbv
    rfl
  have hspeed : Speed.resolve .normal .null = .ok (.normal, []) := rfl
  exact run_of_machine hw rfl hp hs hsource rfl List.nodup_nil hspeed
    ((Run.Machine.run_of_more rfl).trans (Run.Machine.run_of_done rfl))

/-- **The last look and the last result** are of the latest run, through any history, except that a
run that raises leaves behind the result of an earlier one. So there is a last look exactly when the
last result is a success, unless the latest run has raised and such a result is left. -/
theorem final_iff_succeeded_of_reached {latest : Option (Record ε)} (h : Reached s latest) :
    s.memory.Describes latest ∧
      ((s.memory.final.isSome = true ↔ s.memory.Succeeded) ↔
        ¬ (Raised latest ∧ s.memory.Succeeded)) := by
  have hd := describes_of_reached h
  refine ⟨hd, ?_⟩
  match latest, hd with
  | none, ⟨hlast, hfinal⟩ => simp [hlast, hfinal, Memory.Succeeded, Raised]
  | some ⟨.ok r, b⟩, ⟨hlast, hfinal⟩ =>
    cases hr : r.success <;> simp [hlast, hfinal, hr, Memory.Succeeded, Raised]
  | some ⟨.error f, b⟩, hfinal =>
    -- the run has cleared the last look, so nothing goes with a success that is left
    have hraised : Raised (some ⟨.error f, b⟩ : Option (Record ε)) := ⟨f, b, rfl⟩
    have hnone : s.memory.final = none := hfinal
    simp [hnone, hraised]

/-- The empty program is run, and the board goes back to editing. -/
theorem final_iff_succeeded_of_reached_edited :
    let s : Session := { board := ⟨1, 1, 1, 1, .empty 1 1, .origin, .editing⟩, settings := {} }
    let first := s.run "programa\x7b\x7d" .null (Observer.silent Unit String) ()
    let edited : Session :=
      { first.session with board := { first.session.board with phase := .editing } }
    Reached edited (some ⟨first.result, first.session.board⟩) ∧ edited.memory.Succeeded ∧
      edited.memory.final.isSome = true := by
  intro s first edited
  have hwatches : (Observer.silent Unit String).Watches := fun _ _ => rfl
  have hfirst : first.result = .ok { success := true, steps := 0 } :=
    (run_empty hwatches rfl rfl).1
  have hreached : Reached edited (some ⟨first.result, first.session.board⟩) :=
    (Reached.run (.new s.board s.settings) rfl hwatches.works).touch (.board _)
  obtain ⟨hdescribes, hiff⟩ := final_iff_succeeded_of_reached hreached
  rw [hfirst] at hdescribes hiff
  have hsucceeded : edited.memory.Succeeded := ⟨_, hdescribes.1, rfl⟩
  have hreturned : ¬ Raised (some ⟨.ok { success := true, steps := 0 }, first.session.board⟩ :
      Option (Record String)) := by
    rintro ⟨f, b, ⟨⟩⟩
  exact ⟨hreached, hsucceeded, (hiff.mpr fun h => hreturned h.1).mpr hsucceeded⟩

/-- **A stale result**: the empty program is run, the board goes back to editing, and the observer
of the next run raises. The last look is gone, but the last result is a success. -/
theorem reached_stale_after_raise :
    let s : Session := { board := ⟨1, 1, 1, 1, .empty 1 1, .origin, .editing⟩, settings := {} }
    let raises : Observer Unit String :=
      fun st s => { state := st, session := s, raised := some (.raised "closed") }
    let first := s.run "programa\x7b\x7d" .null raises ()
    let edited : Session :=
      { first.session with board := { first.session.board with phase := .editing } }
    let second := edited.run "programa\x7bPintarRojo\x7d" .null raises ()
    Reached second.session (some ⟨second.result, second.session.board⟩) ∧
      second.session.memory.Succeeded ∧ second.session.memory.final = none ∧
      ¬ (second.session.memory.final.isSome = true ↔ second.session.memory.Succeeded) := by
  intro s raises first edited second
  have hwatches : raises.Watches := fun _ _ => rfl
  obtain ⟨hfirst, hfinished⟩ : first.result = .ok { success := true, steps := 0 } ∧
      first.session.board = { s.board with phase := .finished } := run_empty hwatches rfl rfl
  have hreached : Reached first.session (some ⟨first.result, first.session.board⟩) :=
    .run (.new s.board s.settings) rfl hwatches.works
  have hedited : Reached edited (some ⟨first.result, first.session.board⟩) :=
    hreached.touch (.board _)
  have hsource : Program.ofSource "programa\x7bPintarRojo\x7d" 1000000 100 =
      .ok { main := some ⟨[.command (.paint .red) 1], 1⟩ } := by
    unfold Program.ofSource
    conv in tokenize _ _ => cbv
    rfl
  have hspeed : Speed.resolve .normal .null = .ok (.normal, []) := rfl
  have hsettings : edited.settings = {} := settings_run s _ _ raises ()
  have hboard : edited.board = s.board := by
    simp only [edited, hfinished]
    rfl
  have hsecond : second.result = .error (.raised "closed") :=
    (run_of_machine hwatches hboard rfl hsettings hsource rfl List.nodup_nil hspeed
      (Run.Machine.run_of_halt rfl)).1
  have hend : Reached second.session (some ⟨second.result, second.session.board⟩) :=
    hedited.run rfl hwatches.works
  have hlast : second.session.memory.last = edited.memory.last := last_of_raised hwatches hsecond
  have hsucceeded : second.session.memory.Succeeded := by
    have hd := describes_of_reached hedited
    rw [hfirst] at hd
    exact ⟨_, hlast.trans hd.1, rfl⟩
  have hnone : second.session.memory.final = none := by
    have hd := describes_of_reached hend
    rw [hsecond] at hd
    exact hd
  refine ⟨hend, hsucceeded, hnone, fun h => ?_⟩
  have hsome := h.mpr hsucceeded
  rw [hnone] at hsome
  cases hsome

end Trazo.Session
