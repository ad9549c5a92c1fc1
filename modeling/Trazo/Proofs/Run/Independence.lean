import Trazo.Proofs.Board.Cells
import Trazo.Proofs.Run.Agreement

/-!
Runs of one executor are independent.

A run leaves its counts behind, and a request to stop may wait for the next one. The counts are
written afresh before they are read, no call is left on them, and every run uses up the request,
whether it was honoured or not. So whatever has been done with an executor, a run that no request
waits for is the run of a new one.
-/

namespace Trazo.Run

variable {σ ε τ δ : Type}

namespace Outcome

lemma world_leave (o : Outcome σ ε) : o.leave.world = o.world.leave := by
  cases o <;> rfl

end Outcome

/-- Showing the board changes no call. -/
lemma World.calls_present (R : Rules σ ε) (w : World σ) :
    (w.present R).world.calls = w.calls := by
  unfold World.present
  dsimp only
  split <;> rfl

/-- **Calls are left as they are found**, however a task ends. -/
lemma Leads.calls {R : Rules σ ε} {t : Task} {w : World σ} {o : Outcome σ ε}
    (h : Leads R t w o) : o.world.calls = w.calls := by
  induction h with
  | cancelled | overLimit | exhausted | refused | unknown | tooDeep | neither | blind | foreign |
    nil | noPass => rfl
  | command => exact World.calls_present R _
  | @call name line w p o _ _ _ ih =>
    rw [Outcome.world_leave]
    simp only [World.leave, ih, World.enter, List.dropLast_concat]
  | loop _ _ _ ih | step _ _ _ _ ih | yes _ _ ih | no _ _ ih | consFail _ ih | passFail _ ih =>
    exact ih
  | cons _ _ ihs ihr | pass _ _ ihs ihr => exact ihr.trans ihs

namespace Executor

/-! ### What is done with an executor -/

/-- A stop is asked for between two runs, or a run is made. During the run its observer may ask for
stops, or raise. -/
inductive Deed (σ ε : Type)
  | cancel
  | run (observe : Observer σ ε) (st : σ) (board : Board)

/-- The executor after a deed. -/
def did (e : Executor) : Deed σ ε → Executor
  | .cancel => e.cancel
  | .run observe st board => (e.run (e.paced observe) st board).executor

/-- The executor after all that has been done with it, the first deed first. -/
def after (e : Executor) (history : List (Deed σ ε)) : Executor := history.foldl did e

/-- The executor `used` is `e` but for the counts and the request to stop, and is inside no call. -/
def Keeps (e used : Executor) : Prop :=
  ∃ t c, t.stack = [] ∧ used = { e with tally := t, cancelled := c }

variable {e used : Executor} {main : MainBlock}

lemma Keeps.main_eq (h : e.Keeps used) (hmain : e.program.main = some main) :
    used.program.main = some main := by
  obtain ⟨t, c, -, rfl⟩ := h
  exact hmain

/-- A run ends inside no call, and uses up the request to stop. -/
lemma exists_executor_run (hmain : e.program.main = some main) (observe : Observer σ ε) (st : σ)
    (board : Board) : ∃ t, t.stack = [] ∧
      (e.run observe st board).executor = { e with tally := t, cancelled := false } := by
  obtain ⟨o, h, hrun, -⟩ := exists_leads_run hmain hereditary_blockIsInert observe st board
  have hcalls : o.world.calls = [] := h.calls
  refine ⟨e.tallyOf o.world, ?_, by rw [hrun, ended]⟩
  simp [tallyOf, Tally.stack, hcalls]

/-- **Each deed** leaves the rest of the executor as it is. -/
lemma keeps_did (h : e.Keeps used) (hmain : e.program.main = some main) (d : Deed σ ε) :
    e.Keeps (used.did d) := by
  cases d with
  | cancel =>
    obtain ⟨t, c, ht, rfl⟩ := h
    exact ⟨t, true, ht, rfl⟩
  | run observe st board =>
    obtain ⟨t, ht, hrun⟩ := exists_executor_run (h.main_eq hmain) (used.paced observe) st board
    obtain ⟨_, _, -, rfl⟩ := h
    exact ⟨t, false, ht, hrun⟩

/-- Hence so does all that is done with it. -/
lemma keeps_after (h : e.Keeps used) (hmain : e.program.main = some main)
    (history : List (Deed σ ε)) : e.Keeps (used.after history) := by
  induction history generalizing used with
  | nil => exact h
  | cons d history ih => exact ih (keeps_did h hmain d)

/-- No request to stop waits for the next run, unless it has been made since the last one. -/
lemma cancelled_after (h : e.Keeps e) (hmain : e.program.main = some main)
    (hnew : e.cancelled = false) {history : List (Deed σ ε)}
    (hlast : history.getLast? ≠ some .cancel) : (e.after history).cancelled = false := by
  rcases history.eq_nil_or_concat' with rfl | ⟨earlier, d, rfl⟩
  · exact hnew
  · rw [after, List.foldl_concat]
    cases d with
    | cancel => simp at hlast
    | run observe st board =>
      have hused := (keeps_after h hmain earlier).main_eq hmain
      obtain ⟨t, -, hrun⟩ :=
        exists_executor_run hused ((e.after earlier).paced observe) st board
      exact congrArg Executor.cancelled hrun

/-- A run writes the counts before it reads them. -/
lemma run_eq_of_keeps (h : e.Keeps used) (hmain : e.program.main = some main)
    (hc : used.cancelled = e.cancelled) (observe : Observer σ ε) (st : σ) (board : Board) :
    used.run observe st board = e.run observe st board := by
  obtain ⟨t, c, -, rfl⟩ := h
  obtain rfl : c = e.cancelled := hc
  simp only [run, hmain]
  rfl

/-- **Runs are independent**: after whatever has been done with an executor, a run that no request
to stop waits for leaves behind what the run of a new one leaves, and shows the same boards. Between
the runs the executor is inside no call. -/
theorem run_after_eq_run_new {program : Program} {speed : Value} {s : Settings}
    {logs : List Log.Record}
    (hnew : (create program speed s : Except (Failure ε) _) = .ok (e, logs))
    {history : List (Deed τ δ)} (hlast : history.getLast? ≠ some .cancel)
    (observe : Observer σ ε) (st : σ) (board : Board) :
    let used := e.after history
    used.run (used.paced observe) st board = e.run (e.paced observe) st board ∧
      used.shown (used.paced observe) st board = e.shown (e.paced observe) st board ∧
      used.tally.stack = [] := by
  intro used
  obtain ⟨main, chosen, hmain, -, -, he⟩ := exists_of_create hnew
  have hprogram : e.program.main = some main := by rw [he]; exact hmain
  have hcancelled : e.cancelled = false := by rw [he]
  have hfresh : e.Keeps e := by
    rw [he]
    exact ⟨freshTally s, false, rfl, rfl⟩
  have hkeeps : e.Keeps used := keeps_after hfresh hprogram history
  have hc : used.cancelled = e.cancelled := by
    rw [hcancelled]
    exact cancelled_after hfresh hprogram hcancelled hlast
  have hpaced : used.paced observe = e.paced observe := by
    obtain ⟨t, c, -, hu⟩ := hkeeps
    rw [hu]
    rfl
  refine ⟨?_, ?_, ?_⟩
  · rw [hpaced]
    exact run_eq_of_keeps hkeeps hprogram hc _ st board
  · rw [hpaced, shown, shown, run_eq_of_keeps hkeeps hprogram hc]
  · obtain ⟨t, c, ht, hu⟩ := hkeeps
    rw [hu]
    exact ht

/-- The runs before: one that is stopped at once, one that asks for a stop during its last command,
and one that its observer ends inside a call. -/
theorem run_after_eq_run_new_interrupted :
    let program : Program :=
      ⟨some ⟨[.call "pintar" 2], 1⟩, [⟨"pintar", [.command (.paint .red) 5], 4⟩]⟩
    let stops : Observer Nat String := fun n b => { state := n + 1, board := b, cancels := true }
    let raises : Observer Nat String := fun n b =>
      { state := n, board := b.inked none, cancels := true, raised := some (.raised "closed") }
    ∃ e, (create program .null {} : Except (Failure String) _) = .ok (e, []) ∧
      ∀ board : Board,
        let history : List (Deed Nat String) :=
          [.cancel, .cancel, .run stops 0 board, .run stops 0 board, .run raises 1 board]
        let used := e.after history
        history.getLast? ≠ some .cancel ∧
          used.run (used.paced stops) 7 board = e.run (e.paced stops) 7 board ∧
          used.shown (used.paced stops) 7 board = e.shown (e.paced stops) 7 board ∧
          used.tally.stack = [] := by
  intro program stops raises
  have hnames : program.names.Nodup := by decide
  have hspeed : Speed.resolve ({} : Settings).speed .null = .ok (({} : Settings).speed, []) := rfl
  have hnew := create_eq (ε := String) (show program.main = some _ from rfl) hnames hspeed
  refine ⟨_, hnew, ?_⟩
  intro board history used
  have hlast : history.getLast? ≠ some .cancel := by simp [history]
  exact ⟨hlast, run_after_eq_run_new hnew hlast stops 7 board⟩

end Executor

end Trazo.Run
