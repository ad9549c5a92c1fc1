import Trazo.Proofs.Board.Drawing
import Trazo.Proofs.CommandLine.Validity
import Trazo.Proofs.Settings.Loaded

/-!
How a command line ends.

What is read from outside may be missing or wrong in many ways, and so may the program. Each of the
stages before a verb is done hands its problems on to be reported, and the verbs answer with 0 or 1.
Four things are handed on to nobody: settings that are wrong in the environment, where no file is
named for them; pauses without end; limits that have too many digits; and a board that is too wide
for any row.
-/

namespace Trazo

/-! ### Runs that only watch -/

namespace Session

variable {σ ε : Type} {s : Session} {speed : Value}

/-- A run returns a result, if its observer only watches and does not raise, the pauses are not
endless and limits and lines can be written. -/
lemma result_run_cases (hp : s.board.phase = .editing) {chosen : Speed × List Log.Record}
    (hspeed : Speed.resolve s.settings.speed speed = .ok chosen) {observe : Observer σ ε}
    (hw : observe.Watches) (hraised : ∀ st s, (observe st s).raised = none)
    (hb : s.board.WellFormed) (text : String) (st : σ) :
    (∃ r, (s.run text speed observe st).result = .ok r) ∨
      (s.run text speed observe st).result = .error .endlessPause ∧
        s.settings.pause chosen.1 = .infinite false ∨
      (∃ d, (s.run text speed observe st).result = .error (.unwritable d)) ∧
        ¬ (Program.Tellable text s.settings.maxNumber s.settings.maxNesting ∧
          ∀ n ∈ [s.settings.maxSteps, s.settings.maxDepth, s.board.maxSide],
            Text.Integer.isWritable n = true) := by
  rcases compile_cases s.settings text with
    ⟨-, ⟨d, hcompile, -⟩ | ⟨⟨d, hcompile⟩, hno⟩⟩ |
      ⟨-, p, main, hcompile, hmain, hnames, hstands, hcount⟩
  · rw [(run_of_rejected hp (prepare_of_compile_error (hcompile ε))).1]
    exact .inl ⟨_, rfl⟩
  · rw [(run_of_abandoned hp (prepare_of_compile_error (hcompile ε)) rfl).1]
    exact .inr (.inr ⟨⟨d, rfl⟩, fun h => hno h.1⟩)
  · let e : Run.Executor :=
      { program := p, table := p.procedures, speed := chosen.1, settings := s.settings
        tally := Run.Executor.freshTally s.settings }
    have hprepare : prepare s.settings text speed = .ok (e, chosen.2) :=
      prepare_of_compile (hcompile ε) hmain hnames hspeed
    have hmain' : e.program.main = some main := hmain
    have hwatch : ∀ st b, (watch s.settings observe st b).raised = none := fun _ _ => hraised _ _
    have hboard : ∀ st b, (watch s.settings observe st b).board = b := fun st b =>
      congrArg Session.board (hw st.1 { board := b, settings := s.settings, memory := st.2 })
    let b : Board := { s.board with phase := .running }
    have hrunning : b.WellFormed := ⟨hb.grid, hb.head, hb.width, hb.height⟩
    rw [(run_of_executed hw hp hprepare).1]
    unfold executed Run.Executor.Ended.outcome
    rcases Run.Executor.result_run_cases hmain' rfl hstands hcount hwatch
      (st, { s.opened.memory with started := true }) b with
      ⟨n, hn⟩ | ⟨d, hd, -⟩ | ⟨hf, hpause⟩ | ⟨⟨d, hd⟩, hno⟩ | ⟨-, hno⟩
    · rw [hn]
      exact .inl ⟨_, rfl⟩
    · rw [hd]
      exact .inl ⟨_, rfl⟩
    · rw [hf]
      exact .inr (.inl ⟨rfl, hpause⟩)
    · rw [hd]
      refine .inr (.inr ⟨⟨d, rfl⟩, fun h => hno ?_⟩)
      have hall := h.2
      simp only [List.forall_mem_cons, List.not_mem_nil, false_implies, implies_true,
        and_true] at hall
      obtain ⟨hsteps, hdepth, hside⟩ := hall
      refine ⟨hsteps, hdepth, ⟨hrunning, hside⟩, fun {st b} h => ?_⟩
      rwa [hboard]
    · refine absurd ⟨hrunning, fun {st b} h => ?_⟩ hno
      rwa [hboard]

end Session

namespace Board

end Board

namespace CommandLine

variable {w : World} {i : Invocation} {c : Choices} {s : Settings} {text : String}

/-! ### What was asked for -/

/-- A verb ends with 0 if what was asked for is so, and with 1 if not, or there is a problem to
report. No failure escapes but those that may. -/
inductive Reports (good : Prop) (may : Failure Empty → Prop) : Except Trouble Outcome → Prop
  | success {o : Outcome} (he : o.ending = .returned 0) (h : good) : Reports good may (.ok o)
  | failure {o : Outcome} (he : o.ending = .returned 1) (h : ¬ good) : Reports good may (.ok o)
  | problem (p : Problem) (h : ¬ good) : Reports good may (.error (.problem p))
  | broken {o : Outcome} {f : Failure Empty} (he : o.ending = .escaped (.failure f)) (h : ¬ good)
      (hf : may f) : Reports good may (.ok o)
  | unbegun {f : Failure Empty} (h : ¬ good) (hf : may f) :
      Reports good may (.error (.escape (.failure f)))

lemma Reports.congr {good good' : Prop} {may may' : Failure Empty → Prop}
    {x : Except Trouble Outcome} (hx : Reports good may x) (hgood : good ↔ good')
    (hmay : ∀ f, may f → may' f) : Reports good' may' x := by
  cases hx with
  | success he h => exact .success he (hgood.mp h)
  | failure he h => exact .failure he (mt hgood.mpr h)
  | problem p h => exact .problem p (mt hgood.mpr h)
  | broken he h hf => exact .broken he (mt hgood.mpr h) (hmay _ hf)
  | unbegun h hf => exact .unbegun (mt hgood.mpr h) (hmay _ hf)

/-! ### Numbers of a command line -/

/-- The size that is chosen can be written. -/
structure Choices.Countable (c : Choices) : Prop where
  width : Text.Integer.isWritable c.width = true
  height : Text.Integer.isWritable c.height = true

lemma isWritable_of_integer {f : Flag} {value : String} {n : Int} (h : integer f value = .ok n) :
    Text.Integer.isWritable n = true :=
  Text.Integer.isWritable_of_read (of_mapError h)

lemma Choices.Countable.set {c c' : Choices} {f : Flag} {value : String} (hc : c.Countable)
    (h : c.set f value = .ok c') : c'.Countable := by
  cases f with
  | width | height =>
    obtain ⟨n, hn, rfl⟩ := exists_of_map h
    first
      | exact ⟨isWritable_of_integer hn, hc.height⟩
      | exact ⟨hc.width, isWritable_of_integer hn⟩
  | logLevel | speed =>
    obtain ⟨_, -, rfl⟩ := exists_of_map h
    exact ⟨hc.width, hc.height⟩
  | config | start | help | version =>
    cases h
    exact ⟨hc.width, hc.height⟩

section Respond

variable {args : List String} (h : Invocation.ofArguments args = .ok (some i))
include h

end Respond

end CommandLine

end Trazo
