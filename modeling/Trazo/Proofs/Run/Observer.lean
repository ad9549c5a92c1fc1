import Mathlib.Tactic.Lemma
import Trazo.Run.Executor

/-!
An observer may keep more than it acts on, and the run does not notice.

A function on what the observer keeps commutes with each step of the machine, so with whole runs.
The case of use is the observer that keeps the boards it is shown.
-/

namespace Trazo.Run

variable {σ τ ε : Type}

/-- An observer that keeps the boards it is shown, besides what it keeps anyway. -/
def Observer.recorded (observe : Observer σ ε) : Observer (List Board × σ) ε := fun st b =>
  let r := observe st.2 b
  { state := (st.1 ++ [b], r.state), board := r.board, cancels := r.cancels, raised := r.raised }

/-! ### What the observer keeps, mapped -/

def Reaction.map (g : τ → σ) (r : Reaction τ ε) : Reaction σ ε :=
  { state := g r.state, board := r.board, cancels := r.cancels, raised := r.raised }

def Machine.map (g : τ → σ) (m : Machine τ) : Machine σ :=
  { frames := m.frames, board := m.board, tally := m.tally, cancelled := m.cancelled
    pauses := m.pauses, observer := g m.observer }

def Next.map (g : τ → σ) : Next τ ε → Next σ ε
  | .more m => .more (m.map g)
  | .done => .done
  | .halt f m => .halt f (m.map g)

/-- The code of a run whose observer acts on `g` of what the other keeps. -/
structure Code.MapsTo (g : τ → σ) (fine : Code τ ε) (code : Code σ ε) : Prop where
  table : code.table = fine.table
  maxRepeat : code.maxRepeat = fine.maxRepeat
  inert : code.inert = fine.inert
  observe : ∀ st b, code.observe (g st) b = (fine.observe st b).map g

namespace Machine

variable {g : τ → σ} {fine : Code τ ε} {code : Code σ ε}

lemma notify_map (h : fine.MapsTo g code) (m : Machine τ) :
    notify code (m.map g) = (notify fine m).map g := by
  have ho := h.observe m.observer m.board
  unfold notify
  simp only [map, ho, Reaction.map]
  cases (fine.observe m.observer m.board).raised <;> rfl

lemma perform_map (h : fine.MapsTo g code) (m : Machine τ) (s : Statement) :
    perform code (m.map g) s = (perform fine m s).map g := by
  cases s with
  | command c line =>
    have hb : (m.map g).board = m.board := rfl
    simp only [perform, hb]
    cases m.board.perform c (some line) with
    | error f => rfl
    | ok b => exact notify_map h { m with board := b, tally := _ }
  | call name line =>
    have ht : (m.map g).tally = m.tally := rfl
    simp only [perform, h.table, ht]
    cases Procedure.find? fine.table name with
    | none => rfl
    | some p => cases m.tally.enter name (some line) <;> rfl
  | branch q yes no line =>
    have hb : (m.map g).board = m.board := rfl
    simp only [perform, hb]
    cases m.board.senses q with
    | error f => rfl
    | ok holds =>
      dsimp only
      cases (if holds = true then yes else no.getD []).isEmpty <;> rfl
  | foreign kind line => rfl
  | loop count body line => rfl

lemma statement_map (h : fine.MapsTo g code) (m : Machine τ) (s : Statement) :
    statement code (m.map g) s = (statement fine m s).map g := by
  have hc : (m.map g).cancelled = m.cancelled := rfl
  have ht : (m.map g).tally = m.tally := rfl
  unfold statement
  simp only [hc, ht, h.maxRepeat, h.inert]
  split
  · rfl
  · split
    · split
      · rfl
      · split <;> rfl
    · split
      · rfl
      · exact perform_map h { m with tally := _ } s

lemma step_map (h : fine.MapsTo g code) (m : Machine τ) :
    step code (m.map g) = (step fine m).map g := by
  have hf : (m.map g).frames = m.frames := rfl
  unfold step
  rw [hf]
  split
  · rfl
  · split
    · unfold endFrame
      split <;> rfl
    · exact statement_map h { m with frames := _ } _

/-- A run with less kept is the run with more kept, mapped. -/
theorem run_map (h : fine.MapsTo g code) (m : Machine τ) :
    run code (m.map g) = ((run fine m).1, (run fine m).2.map g) := by
  induction m using run.induct fine with
  | case1 m hs =>
    have hs' : step code (m.map g) = .done := by rw [step_map h, hs]; rfl
    rw [run, hs', run, hs]
  | case2 m f last hs =>
    have hs' : step code (m.map g) = .halt f (last.map g) := by rw [step_map h, hs]; rfl
    rw [run, hs', run, hs]
  | case3 m n hs ih =>
    have hs' : step code (m.map g) = .more (n.map g) := by rw [step_map h, hs]; rfl
    rw [run, hs', run, hs]
    exact ih

end Machine

/-! ### The recorded run -/

namespace Executor

def Ended.map (g : τ → σ) (r : Ended τ ε) : Ended σ ε :=
  { result := r.result, executor := r.executor, board := r.board, observer := g r.observer
    pauses := r.pauses, logs := r.logs }

/-- The boards that the observer is shown during a run. -/
def shown (e : Executor) (observe : Observer σ ε) (st : σ) (board : Board)
    (inert : Block → Bool := blockIsInert) : List Board :=
  (e.run observe.recorded ([], st) board inert).observer.1

/-- A run with less kept is the run with more kept, mapped. -/
theorem run_map {g : τ → σ} {fine : Observer τ ε} {observe : Observer σ ε}
    (h : ∀ st b, observe (g st) b = (fine st b).map g) (e : Executor) (st : τ) (board : Board)
    (inert : Block → Bool) :
    e.run observe (g st) board inert = (e.run fine st board inert).map g := by
  have hcode : (e.code fine inert).MapsTo g (e.code observe inert) := ⟨rfl, rfl, rfl, h⟩
  unfold run
  cases e.program.main with
  | none => rfl
  | some main =>
    have hrun : (e.machine main board (g st)).run (e.code observe inert) = _ :=
      Machine.run_map hcode (e.machine main board st)
    simp only [hrun]
    rfl

lemma code_recorded_mapsTo (e : Executor) (observe : Observer σ ε) (inert : Block → Bool) :
    (e.code observe.recorded inert).MapsTo Prod.snd (e.code observe inert) :=
  ⟨rfl, rfl, rfl, fun _ _ => rfl⟩

/-- Keeping the boards that are shown changes nothing else. -/
theorem run_eq_map_recorded (e : Executor) (observe : Observer σ ε) (st : σ) (board : Board)
    (inert : Block → Bool) :
    e.run observe st board inert =
      (e.run observe.recorded ([], st) board inert).map Prod.snd := by
  have hrecorded : ∀ (st : List Board × σ) b,
      observe st.2 b = (observe.recorded st b).map Prod.snd := fun _ _ => rfl
  exact run_map hrecorded e ([], st) board inert

end Executor

end Trazo.Run
