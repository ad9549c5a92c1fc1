import Mathlib.Logic.Relation
import Trazo.Proofs.Board.Operation
import Trazo.Proofs.Session.Lifecycle

/-!
Taking a run back: the looks of the board before and after it, and reset.

A run changes the cells, the head and the phase of a board, and nothing else. So either look fits
the board again, however often they are put back in turn. Reset is the same for every session, and
gives back the board of the last run if that board had no paint on it.

Reset makes the rows of the board anew. It fails on a board whose size was taken on by a resize that
could not make them, and on no other: every session keeps to sizes whose rows can be made, until
such a resize.
-/

namespace Trazo

/-! ### Boards without paint -/

lemma Grid.get_eq_none_of_painted {g : Grid} (hp : g.painted = []) {i j : Nat} (hi : i < g.size)
    (hj : j < g[i].size) : g[i][j] = none := by
  have hrow : (g[i], i) ∈ g.toList.zipIdx := by
    rw [List.mem_zipIdx_iff_getElem?]
    simp [hi]
  have hcell : (g[i][j], j) ∈ g[i].toList.zipIdx := by
    rw [List.mem_zipIdx_iff_getElem?]
    simp [hj]
  have hnone := List.flatMap_eq_nil_iff.mp hp _ hrow
  simpa using List.filterMap_eq_nil_iff.mp hnone _ hcell

/-- A grid without paint is the empty one of its size. -/
lemma Grid.eq_empty_of_painted {g : Grid} {width height : Nat} (hg : g.Measures width height)
    (hp : g.painted = []) : g = .empty width height := by
  refine Array.ext (by simp [Grid.empty, hg.1]) fun i hi _ => ?_
  have hsize : g[i].size = width := hg.2 _ (Array.getElem_mem hi)
  refine Array.ext (by simp [Grid.empty, hsize]) fun j hj _ => ?_
  simp [Grid.empty, Grid.get_eq_none_of_painted hp hi hj]

namespace Board

/-- A board with other cells and another head. -/
def redrawn (b : Board) (g : Grid) (p : Position) : Board := { b with grid := g, head := p }

/-- A command changes the cells or the head. -/
lemma exists_redrawn_of_perform {b shown : Board} {c : Command} {line : Option Int}
    (h : b.perform c line = .ok shown) : ∃ g p, shown = b.redrawn g p := by
  obtain ⟨d, -, -, rfl⟩ | ⟨ink, -, rfl⟩ := perform_cases h
  · exact ⟨b.grid, _, rfl⟩
  · exact ⟨_, b.head, rfl⟩

/-- A look of the same size is put back as it is. -/
lemma restore_of_size {b : Board} {look : Snapshot} (hw : look.width = b.width)
    (hh : look.height = b.height) : b.restore look = .ok (b.redrawn look.grid look.head) := by
  simp only [restore, hw, hh, ne_eq, not_true_eq_false, if_false]
  rfl

lemma teleport_of_inBounds {b : Board} {p : Position} (hb : b.phase = .editing)
    (hp : b.inBounds p = true) : b.teleport p = .ok { b with head := p } := by
  simp only [teleport, requireEditing, hb, if_true, requireInside, hp]
  rfl

/-- An empty board of the same size, with the head at the bottom left. -/
def blanked (b : Board) : Board :=
  { b with grid := .empty b.width b.height, head := .origin, phase := .editing }

lemma reset_eq_ok {b : Board} (h : Grid.Makeable b.width b.height) : b.reset = .ok b.blanked := by
  rw [reset, Grid.blank_of_makeable h]
  rfl

/-- The operation asks for no size whose rows cannot be made. -/
def Operation.Modest (low high : Nat) : Operation → Prop
  | .restore look => Grid.Makeable look.width look.height
  | op => ¬ op.Overflows low high

lemma makeable_attempt {b : Board} {op : Operation} (h : Grid.Makeable b.width b.height)
    (hop : op.Modest b.minSide b.maxSide) :
    Grid.Makeable (b.attempt op).2.width (b.attempt op).2.height := by
  rcases attempt_cases b op with (⟨-, hc⟩ | ⟨-, hb⟩) | ⟨width, height, rfl, hover, -⟩
  · generalize (b.attempt op).2 = b' at hc ⊢
    cases hc with
    | empty _ hm => exact hm
    | restore => exact hop
    | paint | head | phase => exact h
  · rwa [hb]
  · exact absurd hover hop

end Board

namespace Session

open Relation (ReflTransGen)

variable {σ τ ε : Type} {s t : Session} {source : String} {speed : Value} {observe : Observer σ ε}
  {st : σ}

/-! ### Reset -/

/-- The head after a reset: where the last run started, if that is still on the board. -/
def homeHead (s : Session) : Position :=
  match s.memory.startHead with
  | none => .origin
  | some p => if s.board.inBounds p then p else .origin

/-- The session after a reset. -/
def cleared (s : Session) : Session :=
  { s with
    board := { s.board.blanked with head := s.homeHead }
    memory := { s.memory with initial := none, final := none, last := none } }

/-- **Reset** succeeds if the rows of the board can be made. -/
theorem reset_eq_ok (h : Grid.Makeable s.board.width s.board.height) :
    s.reset = .ok s.cleared := by
  unfold reset cleared homeHead
  rw [Board.reset_eq_ok h]
  cases s.memory.startHead with
  | none => rfl
  | some p =>
    have hbounds : s.board.blanked.inBounds p = s.board.inBounds p := rfl
    dsimp only [Except.mapError, bind, Except.bind]
    by_cases hp : s.board.inBounds p = true
    · rw [hbounds, if_pos hp, if_pos hp, Board.teleport_of_inBounds rfl (hbounds.trans hp)]
      rfl
    · rw [hbounds, if_neg hp, if_neg hp]
      rfl

/-- It fails if they cannot be made. -/
lemma reset_eq_error (h : ¬ Grid.Makeable s.board.width s.board.height) :
    s.reset = .error (.grid .tooWide) := by
  rw [reset, Board.reset, Grid.blank_of_not_makeable h]
  rfl

/-! ### What a run leaves -/

/-- What a run that was started leaves behind. -/
structure Leaves (s : Session) (after : Ended σ ε) : Prop where
  board : ∃ g p q, q ≠ .running ∧ after.session.board = { s.board.redrawn g p with phase := q }
  settings : after.session.settings = s.settings
  initial : after.session.memory.initial = some s.board.snapshot
  final : after.session.memory.final =
    if succeeds after.result then some after.session.board.snapshot else none
  startHead : after.session.memory.startHead = some s.board.head

/-- The observer may draw on the board and take it to another phase, ask for a stop, and raise. It
leaves alone the size of the board and what the session remembers. -/
def Observer.Draws (observe : Observer σ ε) : Prop :=
  ∀ st s, ∃ g p q,
    (observe st s).session = { s with board := { s.board.redrawn g p with phase := q } }

lemma Observer.Watches.draws (hw : observe.Watches) : observe.Draws :=
  fun st s => ⟨s.board.grid, s.board.head, s.board.phase, hw st s⟩

/-- Until it is closed, a run changes no more than cells, head and phase. -/
lemma executed_of_draws (hd : observe.Draws) (s : Session) (e : Run.Executor) (st : σ) :
    (∃ g p q, (s.executed e observe st).board = { s.board.redrawn g p with phase := q }) ∧
      (s.executed e observe st).observer.2 = { s.opened.memory with started := true } := by
  refine Run.Executor.run_keeps (I := fun (st : σ × Memory) b =>
    (∃ g p q, b = { s.board.redrawn g p with phase := q }) ∧
      st.2 = { s.opened.memory with started := true }) ?_
    ⟨⟨s.board.grid, s.board.head, .running, rfl⟩, rfl⟩
  rintro ⟨st, m⟩ b c line shown ⟨⟨g, p, q, rfl⟩, hmemory⟩ hperform
  obtain ⟨g', p', rfl⟩ := Board.exists_redrawn_of_perform hperform
  obtain ⟨g'', p'', q'', hsession⟩ := hd st
    { board := Board.redrawn { s.board.redrawn g p with phase := q } g' p'
      settings := s.settings, memory := m }
  simp only [Run.Executor.paced, watch, hsession]
  exact ⟨⟨g'', p'', q'', rfl⟩, hmemory⟩

lemma leaves_run (hd : observe.Draws) (hp : s.board.phase = .editing) :
    Leaves s (s.run source speed observe st) := by
  have hboard : s.board = { s.board.redrawn s.board.grid s.board.head with phase := .editing } := by
    rw [← hp]
    rfl
  have hends := ends_run s source speed observe st
  generalize s.run source speed observe st = after at hends ⊢
  cases hends with
  | refused hn => exact absurd hp hn
  | rejected | abandoned => exact ⟨⟨_, _, _, by decide, hboard⟩, rfl, rfl, rfl, rfl⟩
  | @executed e logs _ _ =>
    obtain ⟨⟨g, p, q, hexecuted⟩, hmemory⟩ := executed_of_draws hd s e st
    have hinitial : (s.executing e observe st).memory.initial = some s.board.snapshot :=
      congrArg Memory.initial hmemory
    have hfinal : (s.executing e observe st).memory.final = none :=
      congrArg Memory.final hmemory
    have hstart : (s.executing e observe st).memory.startHead = some s.board.head :=
      congrArg Memory.startHead hmemory
    rcases conclude_cases (s.executing e observe st) (s.executed e observe st).outcome with
      hc | ⟨hn, d, hc⟩
    · rw [hc]
      constructor
      case board =>
        refine ⟨g, p, lastPhase (s.executed e observe st).outcome, ?_, ?_⟩
        · unfold lastPhase
          split <;> decide
        · simp only [closed, executing, hexecuted]
      case settings => rfl
      case initial => rw [initial_closed, hinitial]
      case final => rw [final_closed, hfinal]
      case startHead => rw [startHead_closed, hstart]
    · -- the observer has ended the phase of the run, so that the run cannot be closed
      rw [hc]
      refine ⟨⟨g, p, q, ?_, hexecuted⟩, rfl, hinitial, hfinal, hstart⟩
      rintro rfl
      exact hn (congrArg Board.phase hexecuted)

/-! ### Looks -/

/-- The two looks that can be put back. -/
inductive View
  | initial | final

def view (s : Session) : View → Except BoardFault (Bool × Session)
  | .initial => s.showInitial
  | .final => s.showFinal

/-- The session after looks have been put back, one after the other. -/
def viewed (s : Session) : List View → Except BoardFault Session
  | [] => .ok s
  | v :: vs => do
    let (_, t) ← s.view v
    t.viewed vs

/-- The session with the cells and the head of a look on its board. -/
def showing (s : Session) (look : Snapshot) : Session :=
  { s with board := s.board.redrawn look.grid look.head }

lemma show_eq_of_size {look look' : Snapshot} (hp : s.board.phase ≠ .running)
    (hw : look.width = s.board.width) (hh : look.height = s.board.height) :
    (s.showing look').show? (some look) = .ok (true, s.showing look) := by
  have hrunning : (s.showing look').running = false := decide_eq_false hp
  have hrestore : (s.showing look').board.restore look =
      .ok ((s.showing look').board.redrawn look.grid look.head) :=
    Board.restore_of_size hw hh
  simp only [show?, hrunning, hrestore]
  rfl

section Leaves

variable {after : Ended σ ε} (h : Leaves s after)
include h

lemma Leaves.not_running : after.session.board.phase ≠ .running := by
  obtain ⟨g, p, q, hq, hboard⟩ := h.board
  rw [hboard]
  exact hq

lemma Leaves.snapshot_showing :
    (after.session.showing s.board.snapshot).board.snapshot = s.board.snapshot := by
  obtain ⟨g, p, q, -, hboard⟩ := h.board
  simp only [showing, hboard]
  rfl

/-- Whatever look is on the board, the one before the run can be put back. -/
lemma Leaves.showInitial (look : Snapshot) :
    (after.session.showing look).showInitial =
      .ok (true, after.session.showing s.board.snapshot) := by
  obtain ⟨g, p, q, -, hboard⟩ := h.board
  have hinitial : (after.session.showing look).memory.initial = some s.board.snapshot := h.initial
  rw [Session.showInitial, hinitial]
  refine show_eq_of_size h.not_running ?_ ?_
  all_goals
    rw [hboard]
    rfl

/-- So can the one after the run, if it was a success; otherwise there is none. -/
lemma Leaves.showFinal (look : Snapshot) :
    (after.session.showing look).showFinal =
      if succeeds after.result then .ok (true, after.session)
      else .ok (false, after.session.showing look) := by
  have hfinal : (after.session.showing look).memory.final =
      if succeeds after.result then some after.session.board.snapshot else none := h.final
  rw [Session.showFinal, hfinal]
  cases succeeds after.result with
  | true => exact show_eq_of_size h.not_running rfl rfl
  | false => rfl

/-- Looks that are put back leave one of them on the board. -/
lemma Leaves.viewed (vs : List View) (look : Snapshot) :
    ∃ look', (after.session.showing look).viewed vs = .ok (after.session.showing look') := by
  induction vs generalizing look with
  | nil => exact ⟨look, rfl⟩
  | cons v vs ih =>
    cases v with
    | initial =>
      obtain ⟨look', hlook⟩ := ih s.board.snapshot
      refine ⟨look', ?_⟩
      simp only [Session.viewed, view, h.showInitial look]
      exact hlook
    | final =>
      simp only [Session.viewed, view, h.showFinal look]
      cases succeeds after.result with
      | true => exact ih after.session.board.snapshot
      | false => exact ih look

/-- Reset gives back the board before the run, if there was no paint on it. -/
lemma Leaves.board_cleared (hb : s.board.WellFormed) (hp : s.board.phase = .editing)
    (hpaint : s.board.painted = []) (look : Snapshot) :
    (after.session.showing look).cleared.board = s.board := by
  obtain ⟨g, p, q, -, hboard⟩ := h.board
  have hgrid : s.board.grid = .empty s.board.width s.board.height :=
    Grid.eq_empty_of_painted hb.grid hpaint
  have hbounds : (after.session.showing look).board.inBounds s.board.head = true := by
    rw [showing, hboard]
    exact (Board.within_iff_inBounds s.board s.board.head).mp hb.head
  have hhead : (after.session.showing look).homeHead = s.board.head := by
    have hstart : (after.session.showing look).memory.startHead = some s.board.head := h.startHead
    simp only [homeHead, hstart, hbounds, if_true]
  simp only [cleared, hhead]
  simp only [showing, hboard, Board.redrawn, Board.blanked, ← hgrid, ← hp]

/-- The size of the board stays, whatever look is on it. -/
lemma Leaves.makeable (hm : Grid.Makeable s.board.width s.board.height) (look : Snapshot) :
    Grid.Makeable (after.session.showing look).board.width
      (after.session.showing look).board.height := by
  obtain ⟨g, p, q, -, hboard⟩ := h.board
  simp only [showing, hboard]
  exact hm

end Leaves

/-! ### Sessions whose boards can be made anew -/

/-- One thing that is done to a session, short of running a program. No operation on the board asks
for rows that cannot be made. -/
inductive Handles (s : Session) : Session → Prop
  | operate {op : Board.Operation} (hop : op.Modest s.board.minSide s.board.maxSide) :
      Handles s { s with board := (s.board.attempt op).2 }
  | view {v : View} {done : Bool} {t : Session} (h : s.view v = .ok (done, t)) : Handles s t
  | reset {t : Session} (h : s.reset = .ok t) : Handles s t

/-- The observer does such things to the session, and may ask for a stop or raise. -/
def Observer.Handles (observe : Observer σ ε) : Prop :=
  ∀ st s, ReflTransGen Session.Handles s (observe st s).session

/-- The sessions that can be reached without an operation that asks for rows that cannot be made,
by an observer or between runs. -/
inductive Attained : Session → Prop
  | new {width height : Int} {limits : Settings} {b : Board}
      (h : Board.create width height limits = .ok b) (settings : Settings) :
      Attained { board := b, settings := settings }
  | handle {s t : Session} (hs : Attained s) (h : Handles s t) : Attained t
  | run {σ ε : Type} {s : Session} {source : String} {speed : Value} {observe : Observer σ ε}
      {st : σ} (hs : Attained s) (ho : observe.Handles) :
      Attained (s.run source speed observe st).session

/-- The rows can be made of the board, and of the looks that may be put back on it. -/
structure Makeable (s : Session) : Prop where
  board : Grid.Makeable s.board.width s.board.height
  initial : ∀ look ∈ s.memory.initial, Grid.Makeable look.width look.height
  final : ∀ look ∈ s.memory.final, Grid.Makeable look.width look.height

lemma makeable_create {width height : Int} {limits : Settings} {b : Board}
    (h : Board.create width height limits = .ok b) : Grid.Makeable b.width b.height := by
  obtain ⟨-, -, h⟩ := exists_of_bind h
  obtain ⟨g, hg, h⟩ := exists_of_bind h
  obtain ⟨hm, -⟩ := Grid.of_blank (of_mapError hg)
  obtain rfl := Except.ok.inj h
  exact hm

lemma Makeable.show {look : Option Snapshot} {done : Bool} (hs : s.Makeable)
    (hlook : ∀ l ∈ look, Grid.Makeable l.width l.height) (h : s.show? look = .ok (done, t)) :
    t.Makeable := by
  unfold show? at h
  split at h
  · cases h
    exact hs
  · rename_i l
    split at h
    · cases h
      exact hs
    · obtain ⟨b, hb, h⟩ := exists_of_bind h
      cases h
      have hattempt : (s.board.attempt (.restore l)).2 = b := by
        simp only [Board.attempt, hb]
        rfl
      have hsize : Grid.Makeable (s.board.attempt (.restore l)).2.width _ :=
        Board.makeable_attempt hs.board (hlook l rfl)
      rw [hattempt] at hsize
      exact ⟨hsize, hs.initial, hs.final⟩

/-- **One thing** done to a session keeps to sizes whose rows can be made. -/
lemma Makeable.handles (hs : s.Makeable) (h : Handles s t) : t.Makeable := by
  cases h with
  | operate hop => exact ⟨Board.makeable_attempt hs.board hop, hs.initial, hs.final⟩
  | @view v done t h =>
    cases v with
    | initial => exact hs.show hs.initial h
    | final => exact hs.show hs.final h
  | reset h =>
    rw [reset_eq_ok hs.board] at h
    cases h
    exact ⟨hs.board, by simp [cleared], by simp [cleared]⟩

lemma Makeable.handled (hs : s.Makeable) (h : ReflTransGen Handles s t) : t.Makeable := by
  induction h with
  | refl => exact hs
  | tail _ hstep ih => exact ih.handles hstep

lemma Makeable.opened (hs : s.Makeable) : s.opened.Makeable := by
  refine ⟨hs.board, fun look hlook => ?_, by simp [Session.opened]⟩
  obtain rfl := Option.some.inj hlook
  exact hs.board

lemma Makeable.executing (hs : s.Makeable) (ho : observe.Handles) (e : Run.Executor) (st : σ) :
    (s.executing e observe st).Makeable := by
  refine Run.Executor.run_keeps (I := fun (st : σ × Memory) b =>
    Makeable { s with board := b, memory := st.2 }) ?_
    ⟨hs.board, hs.opened.initial, hs.opened.final⟩
  rintro ⟨st, m⟩ b c line shown hb hperform
  -- a command leaves the size alone, and what the observer does then keeps it within bounds
  obtain ⟨g, p, rfl⟩ := Board.exists_redrawn_of_perform hperform
  have hshown : Makeable { s with board := b.redrawn g p, memory := m } :=
    ⟨hb.board, hb.initial, hb.final⟩
  have hafter := hshown.handled (ho st _)
  exact ⟨hafter.board, hafter.initial, hafter.final⟩

lemma Makeable.closed (hs : s.Makeable) (outcome : Except (Failure ε) Run.Result) :
    (s.closed outcome).Makeable := by
  refine ⟨hs.board, ?_, ?_⟩
  · rw [initial_closed]
    exact hs.initial
  · rw [final_closed]
    split
    · intro look hlook
      obtain rfl := Option.some.inj hlook
      exact hs.board
    · exact hs.final

/-- **A run** keeps to such sizes, whatever becomes of it. -/
lemma Makeable.run (hs : s.Makeable) (ho : observe.Handles) (source : String) (speed : Value)
    (st : σ) : (s.run source speed observe st).session.Makeable := by
  have hends := ends_run s source speed observe st
  generalize s.run source speed observe st = after at hends ⊢
  cases hends with
  | refused => exact hs
  | rejected | abandoned => exact ⟨hs.board, hs.opened.initial, hs.opened.final⟩
  | @executed e logs _ _ =>
    have hopen := hs.executing ho e st
    rcases conclude_cases (s.executing e observe st) (s.executed e observe st).outcome with
      hc | ⟨-, d, hc⟩
    all_goals rw [hc]
    · exact hopen.closed _
    · exact hopen

/-- **Every session** keeps to such sizes, as long as it is asked for no other. -/
theorem Attained.makeable (h : Attained s) : s.Makeable := by
  induction h with
  | new h => exact ⟨makeable_create h, by simp, by simp⟩
  | handle _ h ih => exact ih.handles h
  | run _ ho ih => exact ih.run ho _ _ _

/-! ### Running again -/

/-- The observer leaves the session as it is, asks for no stop and does not raise. -/
structure Observer.Idle (observe : Observer σ ε) : Prop where
  watches : observe.Watches
  cancels : ∀ st s, (observe st s).cancels = false
  raised : ∀ st s, (observe st s).raised = none

/-- An idle observer makes no difference to what an executor does. -/
lemma executed_of_idle (hi : observe.Idle) (s : Session) (e : Run.Executor) (st : σ) :
    e.run (e.paced (Run.Observer.silent Unit ε)) () { s.board with phase := .running } =
      (s.executed e observe st).map fun _ => () := by
  have hsilent : ∀ st b, e.paced (Run.Observer.silent Unit ε) () b =
      (e.paced (watch s.settings observe) st b).map fun _ => () := by
    rintro ⟨st, m⟩ b
    simp only [Run.Executor.paced, Run.Reaction.map, watch, hi.watches st _, hi.cancels, hi.raised]
    rfl
  exact Run.Executor.run_map hsilent e _ _ _

/-- A run that has no executor leaves the board alone. -/
lemma run_of_error {f : Failure ε} (hp : s.board.phase = .editing)
    (hf : prepare s.settings source speed = .error f) (observe : Observer σ ε) (st : σ) :
    (s.run source speed observe st).result =
        (match f.diagnostic? with
          | some d => .ok (rejection d)
          | none => .error f) ∧
      (s.run source speed observe st).session.board = s.board := by
  have hends := ends_run s source speed observe st
  generalize s.run source speed observe st = after at hends ⊢
  cases hends with
  | refused hn => exact absurd hp hn
  | rejected _ h =>
    rw [hf] at h
    cases h
    exact ⟨rfl, rfl⟩
  | abandoned _ h hnone =>
    rw [hf] at h
    cases h
    rw [hnone]
    exact ⟨rfl, rfl⟩
  | executed _ h =>
    rw [hf] at h
    cases h

/-- **Running again**: idle runs of one source text on one board come to the same, whatever the
sessions remember. -/
theorem run_eq_of_idle {observe' : Observer τ ε} (hi : observe.Idle) (hi' : observe'.Idle)
    (hp : s.board.phase = .editing) (hboard : t.board = s.board)
    (hsettings : t.settings = s.settings) (source : String) (speed : Value) (st : σ) (st' : τ) :
    (t.run source speed observe' st').result = (s.run source speed observe st).result ∧
      (t.run source speed observe' st').session.board =
        (s.run source speed observe st).session.board := by
  have hp' : t.board.phase = .editing := by rw [hboard, hp]
  have hprepare : (prepare t.settings source speed : Except (Failure ε) _) =
      prepare s.settings source speed := by rw [hsettings]
  cases h : (prepare s.settings source speed : Except (Failure ε) _) with
  | error f =>
    rw [h] at hprepare
    obtain ⟨hresult, hafter⟩ := run_of_error hp h observe st
    obtain ⟨hresult', hafter'⟩ := run_of_error hp' hprepare observe' st'
    exact ⟨hresult'.trans hresult.symm, by rw [hafter, hafter', hboard]⟩
  | ok made =>
    rw [h] at hprepare
    obtain ⟨hresult, hsession⟩ : (s.run source speed observe st).result = _ ∧ _ :=
      run_of_executed hi.watches hp h
    obtain ⟨hresult', hsession'⟩ : (t.run source speed observe' st').result = _ ∧ _ :=
      run_of_executed hi'.watches hp' hprepare
    have hsame : (s.executed made.1 observe st).map (fun _ => ()) =
        (t.executed made.1 observe' st').map (fun _ => ()) := by
      rw [← executed_of_idle hi, ← executed_of_idle hi', hboard]
    have houtcome : (s.executed made.1 observe st).outcome =
        (t.executed made.1 observe' st').outcome :=
      congrArg Run.Executor.Ended.outcome hsame
    have hleft : (s.executed made.1 observe st).board = (t.executed made.1 observe' st').board :=
      congrArg Run.Executor.Ended.board hsame
    refine ⟨by rw [hresult, hresult', houtcome], ?_⟩
    simp only [hsession, hsession', closed, executing, houtcome, hleft]

/-! ### Undoing -/

/-- **A run is undone.** After a run with any result, and after any looks that have been put back,
the look before the run can be put back and so can the one after it, if it was a success; the phase
stays. Reset gives back the board before the run, if that was without paint, so that the program can
be run again with the same result. Reset changes nothing the second time; it fails on a board whose
rows cannot be made, which no session gets to that was never asked for one, and on no other. -/
theorem run_undone (s : Session) (hp : s.board.phase = .editing) (source : String) (speed : Value)
    {observe : Observer σ ε} (hd : observe.Draws) (st : σ) :
    let after := s.run source speed observe st
    (∀ vs : List View, ∃ now, after.session.viewed vs = .ok now ∧
      now.board.phase = after.session.board.phase ∧
      (∃ t, now.showInitial = .ok (true, t) ∧ t.board.snapshot = s.board.snapshot ∧
        t.board.phase = now.board.phase) ∧
      (succeeds after.result = true → ∃ t, now.showFinal = .ok (true, t) ∧
        t.board.snapshot = after.session.board.snapshot ∧ t.board.phase = now.board.phase) ∧
      (succeeds after.result = false → now.showFinal = .ok (false, now)) ∧
      (s.board.WellFormed → Grid.Makeable s.board.width s.board.height → s.board.painted = [] →
        ∃ t, now.reset = .ok t ∧ t.board = s.board ∧
          ∀ {α β : Type} {first : Observer α ε} {again : Observer β ε} (a : α) (b : β),
            first.Idle → again.Idle →
            (t.run source speed again b).result = (s.run source speed first a).result ∧
              (t.run source speed again b).session.board =
                (s.run source speed first a).session.board)) ∧
    ∀ any : Session,
      (Attained any → Grid.Makeable any.board.width any.board.height) ∧
        (Grid.Makeable any.board.width any.board.height →
          ∃ t, any.reset = .ok t ∧ t.reset = .ok t) ∧
        (¬ Grid.Makeable any.board.width any.board.height →
          any.reset = .error (.grid .tooWide)) := by
  intro after
  have h : Leaves s after := leaves_run hd hp
  refine ⟨fun vs => ?_, fun any => ?_⟩
  · obtain ⟨look, hviewed⟩ := h.viewed vs after.session.board.snapshot
    refine ⟨_, hviewed, rfl, ?_, ?_, ?_, ?_⟩
    · exact ⟨_, h.showInitial look, h.snapshot_showing, rfl⟩
    · intro hsuccess
      exact ⟨after.session, by rw [h.showFinal look, if_pos hsuccess], rfl, rfl⟩
    · intro hfailure
      rw [h.showFinal look, hfailure]
      rfl
    · intro hb hm hpaint
      have hboard := h.board_cleared hb hp hpaint look
      refine ⟨_, reset_eq_ok (h.makeable hm look), hboard, fun a b hfirst hagain => ?_⟩
      exact run_eq_of_idle hfirst hagain hp hboard h.settings source speed a b
  · refine ⟨fun hany => hany.makeable.board, fun hm => ?_, reset_eq_error⟩
    have hcleared : any.cleared.reset = .ok any.cleared.cleared := reset_eq_ok hm
    exact ⟨_, reset_eq_ok hm, hcleared⟩

/-- The only cell is painted, and both looks are put back before the reset. -/
theorem run_undone_painted :
    let s : Session := { board := ⟨1, 1, 1, 1, .empty 1 1, .origin, .editing⟩, settings := {} }
    let source := "programa\x7bPintarRojo\x7d"
    let observe := Observer.silent Unit String
    let after := s.run source .null observe ()
    observe.Idle ∧ s.board.WellFormed ∧ s.board.painted = [] ∧ succeeds after.result = true ∧
      ∃ now, after.session.viewed [.initial, .final, .initial] = .ok now ∧
        (∃ t, now.showFinal = .ok (true, t) ∧
          t.board.snapshot = after.session.board.snapshot) ∧
        ∃ t, now.reset = .ok t ∧ t.board = s.board ∧
          (t.run source .null observe ()).result = after.result := by
  intro s source observe after
  have hidle : observe.Idle := ⟨fun _ _ => rfl, fun _ _ => rfl, fun _ _ => rfl⟩
  have hb : s.board.WellFormed := ⟨Grid.measures_empty 1 1, by decide, by decide, by decide⟩
  have hsource : Program.ofSource "programa\x7bPintarRojo\x7d" 1000000 100 =
      .ok { main := some ⟨[.command (.paint .red) 1], 1⟩ } := by
    unfold Program.ofSource
    conv in tokenize _ _ => cbv
    rfl
  have hspeed : Speed.resolve .normal .null = .ok (.normal, []) := rfl
  have hsettings : s.settings = {} := rfl
  have hresult : after.result = .ok { success := true, steps := 1, commands := 1 } :=
    (run_of_machine hidle.watches rfl rfl hsettings hsource rfl List.nodup_nil hspeed
      ((Run.Machine.run_of_more rfl).trans
        ((Run.Machine.run_of_more rfl).trans (Run.Machine.run_of_done rfl)))).1
  have hsuccess : succeeds after.result = true := by
    rw [hresult]
    rfl
  obtain ⟨now, hnow, -, -, hfinal, -, hreset⟩ :=
    (run_undone s rfl source .null hidle.watches.draws ()).1 [.initial, .final, .initial]
  obtain ⟨t, ht, hlook, -⟩ := hfinal hsuccess
  obtain ⟨r, hr, hboard, hagain⟩ := hreset hb (by decide) rfl
  exact ⟨hidle, hb, rfl, hsuccess, now, hnow, ⟨t, ht, hlook⟩, r, hr, hboard,
    (hagain () () hidle hidle).1⟩

/-- **No way back**: a resize breaks off with more columns taken on than a row can have, and from
then on reset fails. -/
theorem reset_of_torn_board :
    let limits : Settings := { maxSide := maxIndex + 1 }
    let b : Board := ⟨1, maxIndex + 1, 1, 1, .empty 1 1, .origin, .editing⟩
    let torn : Session := { board := (b.attempt (.resize (maxIndex + 1) 1)).2, settings := limits }
    Board.create 1 1 limits = .ok b ∧ torn.reset = .error (.grid .tooWide) := by
  intro limits b torn
  have hattempt := Board.attempt_of_overflows (b := b) Board.overflows_beyond
  refine ⟨rfl, reset_eq_error ?_⟩
  simp only [torn, hattempt]
  exact Board.overflows_beyond.2

end Session

end Trazo
