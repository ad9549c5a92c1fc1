import Trazo.Proofs.Program.Table
import Trazo.Proofs.Run.Stack

/-!
Runs agree with the meaning of their programs.

An executor reports what the structure of the program says: the same board, counts, boards shown
and result. As the meaning knows nothing of inert loops, passing over them cannot be noticed.
-/

namespace Trazo.Run

variable {σ ε : Type}

namespace Outcome

def world : Outcome σ ε → World σ
  | .done w | .fail _ w => w

def failure : Outcome σ ε → Option (Failure ε)
  | .done _ => none
  | .fail f _ => some f

/-- The number of steps, or what ended the run before the end of the program. -/
def result : Outcome σ ε → Except (Failure ε) Nat
  | .done w => .ok w.steps
  | .fail f _ => .error f

lemma failure_leave (o : Outcome σ ε) : o.leave.failure = o.failure := by
  cases o <;> rfl

end Outcome

namespace Machine

/-- Leaving the frames changes the calls only. -/
lemma exists_unwind_eq (m : Machine σ) : ∃ c, m.unwind = { m.tally with calls := c } := by
  have h : ∀ (fs : List Frame) (t : Tally), ∃ c,
      fs.foldl (fun t f => if f.procedure.isSome then t.leave else t) t =
        { t with calls := c } := by
    intro fs
    induction fs with
    | nil => exact fun t => ⟨t.calls, rfl⟩
    | cons f below ih =>
      intro t
      rw [List.foldl_cons]
      split
      · obtain ⟨c, hc⟩ := ih t.leave
        exact ⟨c, hc⟩
      · exact ih t
  exact h m.frames m.tally

end Machine

namespace Executor

variable {observe : Observer σ ε} {st : σ} {board : Board} {inert : Block → Bool}

def rules (e : Executor) (observe : Observer σ ε) : Rules σ ε :=
  { procedures := e.table, settings := e.settings, observe := observe }

/-- The end of the machine's run is an outcome of the main block. -/
lemma leads_ending (e : Executor) (main : MainBlock) (hi : Hereditary inert)
    (observe : Observer σ ε) (st : σ) (board : Board) :
    Leads (e.rules observe) (.block main.body)
        { board := board, cancelled := e.cancelled, observer := st }
        (Machine.ending ((e.machine main board ([], st)).run (e.code observe.recorded inert))) ∧
      ((e.machine main board ([], st)).run (e.code observe.recorded inert)).2.Obeys
        (e.rules observe) := by
  have hm : (e.machine main board (([], st) : List Board × σ)).Obeys (e.rules observe) :=
    ⟨rfl, rfl⟩
  obtain ⟨⟨o, ho, he⟩, hl⟩ := Machine.continues_run hi _ hm
  refine ⟨?_, hl⟩
  have hb := Frame.leads_block ho
  rw [show o = _ from he.symm] at hb
  exact hb

/-- What an executor counts in a world. -/
def tallyOf (e : Executor) (w : World σ) : Tally :=
  { freshTally e.settings with
    steps := w.steps, commands := w.commands
    calls := ⟨w.calls.reverse, w.calls.length, by simp⟩ }

/-- What is left after a run on `board` that had the outcome `o`. -/
def ended (e : Executor) (board : Board) (o : Outcome σ ε) : Ended σ ε :=
  { result := o.result
    executor := { e with tally := e.tallyOf o.world, cancelled := false }
    board := o.world.board
    observer := o.world.observer
    pauses := o.world.pauses
    logs := e.startRecord board :: endRecords (e.tallyOf o.world) o.failure }

lemma unwind_eq_tallyOf {e : Executor} {m : Machine (List Board × σ)}
    (hm : m.Obeys (e.rules observe)) : m.unwind = e.tallyOf m.settled.world := by
  obtain ⟨c, hc⟩ := m.exists_unwind_eq
  obtain ⟨names, depth, hd⟩ := c
  subst hd
  simp [tallyOf, freshTally, Machine.settled, Machine.world, Tally.stack, hc, hm.1, hm.2, rules]

/-- The end of a run of the machine leaves behind what its outcome says. -/
lemma ended_ending {e : Executor} {m : Machine (List Board × σ)}
    (hm : m.Obeys (e.rules observe)) (failure : Option (Failure ε)) (board : Board) :
    e.ended board (Machine.ending (failure, m)) =
      { result := match failure with
          | none => .ok m.tally.steps
          | some f => .error f
        executor := { e with tally := m.unwind, cancelled := false }
        board := m.board
        observer := m.observer.2
        pauses := m.pauses
        logs := e.startRecord board :: endRecords m.tally failure } := by
  have hu := unwind_eq_tallyOf hm
  obtain ⟨c, hc⟩ := m.exists_unwind_eq
  cases failure with
  | none =>
    simp only [ended, Machine.ending, Outcome.world, Outcome.result, Outcome.failure, ← hu]
    simp [Machine.settled, Machine.world, hc, endRecords]
  | some f =>
    simp only [ended, Machine.ending, Outcome.world, Outcome.result, Outcome.failure, ← hu]
    cases f <;> simp [Machine.settled, Machine.world, hc, endRecords]

/-- **Every run has an outcome**, and leaves behind what the outcome says. -/
theorem exists_leads_run {e : Executor} {main : MainBlock} (hmain : e.program.main = some main)
    (hi : Hereditary inert) (observe : Observer σ ε) (st : σ) (board : Board) :
    ∃ o, Leads (e.rules observe) (.block main.body)
        { board := board, cancelled := e.cancelled, observer := st } o ∧
      e.run observe st board inert = e.ended board o ∧
      e.shown observe st board inert = o.world.seen := by
  obtain ⟨h, hl⟩ := e.leads_ending main hi observe st board
  refine ⟨_, h, ?_, ?_⟩
  · rw [ended_ending hl, run_eq_map_recorded]
    simp only [run, hmain]
    rfl
  · simp only [shown, run, hmain]
    unfold Machine.ending
    split <;> rfl

/-- A program with a main block and distinct names has an executor, with the names as its table. -/
lemma create_eq {program : Program} {main : MainBlock} (hmain : program.main = some main)
    (hnames : program.names.Nodup) {speed : Value} {settings : Settings}
    {chosen : Speed × List Log.Record}
    (hspeed : Speed.resolve settings.speed speed = .ok chosen) :
    (create program speed settings : Except (Failure ε) _) = .ok
      ({ program := program, table := program.procedures, speed := chosen.1
         settings := settings, tally := freshTally settings }, chosen.2) := by
  have ht : Procedure.table program.procedures = .ok program.procedures :=
    Procedure.table_eq_ok_iff.mpr ⟨rfl, hnames⟩
  simp only [create, hmain, hspeed, ht]
  rfl

/-- There is no other executor: one that has been made is for such a program, and new. -/
lemma exists_of_create {program : Program} {speed : Value} {settings : Settings} {e : Executor}
    {logs : List Log.Record}
    (h : (create program speed settings : Except (Failure ε) _) = .ok (e, logs)) :
    ∃ main chosen, program.main = some main ∧ program.names.Nodup ∧
      Speed.resolve settings.speed speed = .ok (chosen, logs) ∧
      e = { program := program, table := program.procedures, speed := chosen
            settings := settings, tally := freshTally settings } := by
  unfold create at h
  cases hmain : program.main with
  | none => simp [hmain, bind, Except.bind, throw, throwThe, MonadExceptOf.throw] at h
  | some main =>
    cases hspeed : Speed.resolve settings.speed speed with
    | error f => simp [hmain, hspeed, bind, Except.bind, Except.mapError] at h
    | ok chosen =>
      cases htable : Procedure.table program.procedures with
      | error d => simp [hmain, hspeed, htable, bind, Except.bind, Except.mapError] at h
      | ok table =>
        obtain ⟨rfl, hnames⟩ := Procedure.table_eq_ok_iff.mp htable
        simp only [hmain, hspeed, htable] at h
        cases h
        exact ⟨main, chosen.1, rfl, hnames, rfl, rfl⟩

/-- A run of the executor ends as an outcome says. -/
structure Reports (e : Executor) (observe : Observer σ ε) (st : σ) (b : Board)
    (o : Outcome σ ε) : Prop where
  result : (e.run observe st b).result = o.result
  board : (e.run observe st b).board = o.world.board
  steps : (e.run observe st b).executor.tally.steps = o.world.steps
  commands : (e.run observe st b).executor.tally.commands = o.world.commands
  calls : (e.run observe st b).executor.tally.stack = o.world.calls
  pauses : (e.run observe st b).pauses = o.world.pauses
  shown : e.shown observe st b = o.world.seen
  observer : (e.run observe st b).observer = o.world.observer

/-- **A run is what its program means.** The main block has exactly one outcome, and the run ends
with its result, its board and its counts, having shown its boards to the observer. -/
theorem create_run_agrees {program : Program} {main : MainBlock}
    (hmain : program.main = some main) (hnames : program.names.Nodup) {speed : Value}
    {settings : Settings} {chosen : Speed × List Log.Record}
    (hspeed : Speed.resolve settings.speed speed = .ok chosen) :
    ∃ e, (create program speed settings : Except (Failure ε) _) = .ok (e, chosen.2) ∧
      ∀ (early : Bool) (observe : Observer σ ε) (st : σ) (board : Board),
        ∃ o, (∀ o', Leads ⟨program.procedures, settings, observe⟩ (.block main.body)
            { board := board, cancelled := early, observer := st } o' ↔ o' = o) ∧
          { e with cancelled := early }.Reports observe st board o := by
  refine ⟨_, create_eq hmain hnames hspeed, ?_⟩
  intro early observe st board
  obtain ⟨o, h, hrun, hshown⟩ :=
    exists_leads_run (e := { program := program, table := program.procedures, speed := chosen.1
                             settings := settings, tally := freshTally settings
                             cancelled := early })
      hmain hereditary_blockIsInert observe st board
  refine ⟨o, fun o' => ⟨fun h' => h'.unique h, fun he => he ▸ h⟩, ?_⟩
  constructor
  case shown => exact hshown
  case calls =>
    rw [hrun]
    exact List.reverse_reverse _
  all_goals rw [hrun]; rfl

/-- A loop over a condition and an inert loop, before a procedure that calls itself. -/
theorem create_run_agrees_recursive :
    let body : Block := [.loop 3 [.branch .isEmpty [.command (.paint .red) 2] none 2,
      .loop 2 [.loop 1 [] 3] 3] 1, .call "subir" 4]
    let program : Program :=
      { main := some ⟨body, 1⟩
        procedures := [⟨"subir", [.command (.move .up) 6, .call "subir" 7], 5⟩, ⟨"nada", [], 9⟩] }
    let settings : Settings := { maxDepth := 5 }
    program.names.Nodup ∧
      ∃ e, (create program .null settings : Except (Failure String) _) = .ok (e, []) ∧
        ∀ (early : Bool) (observe : Observer Nat String) (st : Nat) (board : Board),
          ∃ o, (∀ o', Leads ⟨program.procedures, settings, observe⟩ (.block body)
              { board := board, cancelled := early, observer := st } o' ↔ o' = o) ∧
            { e with cancelled := early }.Reports observe st board o := by
  intro body program settings
  have hnames : program.names.Nodup := by decide
  have hspeed : Speed.resolve settings.speed .null = .ok (settings.speed, []) := rfl
  exact ⟨hnames, create_run_agrees rfl hnames hspeed⟩

end Executor

end Trazo.Run
