import Mathlib.Data.List.Permutation
import Trazo.Proofs.Board.Cells
import Trazo.Proofs.Limits.Nesting
import Trazo.Proofs.Run.Agreement
import Trazo.Proofs.Run.Transition
import Trazo.Session

/-!
Raising limits is conservative.

Each limit has an error of its own and is felt in no other way. So a source text that does not end
with the error of a raised limit is compiled to the same program or rejected for the same reason,
and the run does the same to the end. Runs are compared by what their programs mean. The greatest
number is an exception: its digits are counted, so raised far enough it keeps numbers from being
read at all.
-/

namespace Trazo

variable {σ ε : Type} {r : Limit → Nat} {s : Settings} {source : String}

/-- The limit that a failure tells of, or would tell of if it could be written. -/
def Failure.limit? : Failure ε → Option Limit
  | .diagnostic d | .unwritable (some d) => d.limit?
  | _ => none

lemma Failure.limit?_report (numbers : List Int) (d : Diagnostic) :
    (report numbers d : Failure ε).limit? = d.limit? := by
  unfold report
  split <;> rfl

/-- Raising the limits by `r` raises none that the failure tells of. -/
def Limit.Spares (r : Limit → Nat) (f : Failure ε) : Prop := ∀ l, r l ≠ 0 → f.limit? ≠ some l

lemma Limit.Spares.eq_zero {f : Failure ε} {l : Limit} (h : Limit.Spares r f)
    (hl : f.limit? = some l) : r l = 0 := by
  by_contra hr
  exact h l hr hl

/-- A limit that a failure tells of stays as it is. -/
lemma Limit.Spares.limit_raised {f : Failure ε} {l : Limit} (h : Limit.Spares r f)
    (hl : f.limit? = some l) (s : Settings) : (s.raised r).limit l = s.limit l := by
  rw [Settings.limit_raised, h.eq_zero hl, Nat.add_zero]

/-! ### Compiling -/

lemma Program.ofSource_raised (hle : Lexer.Extends s.maxNumber (s.raised r).maxNumber)
    (h : ∀ f, ofSource source s.maxNumber s.maxNesting = .error f →
    Limit.Spares r (f.failure : Failure ε)) :
    ofSource source (s.raised r).maxNumber (s.raised r).maxNesting =
      ofSource source s.maxNumber s.maxNesting := by
  have htokens : tokenize source (s.raised r).maxNumber = tokenize source s.maxNumber := by
    refine Lexer.tokenize_raised hle fun f hf hl hcause => ?_
    have herror : ofSource source s.maxNumber s.maxNesting = .error (.lexical f) := by
      simp only [ofSource, hf]
    have hfailure : ((SourceFault.lexical f).failure : Failure ε) = .diagnostic f.diagnostic := by
      simp [SourceFault.failure, Failure.ofLexFault]
    exact (h _ herror).eq_zero (by rw [hfailure]; exact hl)
  unfold ofSource at h ⊢
  rw [htokens]
  cases ht : tokenize source s.maxNumber with
  | error f => rfl
  | ok tokens =>
    simp only [ht] at h ⊢
    have hparse : ofTokens tokens (s.raised r).maxNesting = ofTokens tokens s.maxNesting := by
      refine ofTokens_raised fun f hf hl => ?_
      refine (h (.tokens (.parse (.grammar f))) (by rw [hf]; rfl)).eq_zero ?_
      rw [← hl]
      exact Failure.limit?_report _ _
    rw [hparse]

namespace Session

lemma compile_raised (hle : Lexer.Extends s.maxNumber (s.raised r).maxNumber)
    (h : ∀ f, (compile s source : Except (Failure ε) Program) = .error f → Limit.Spares r f) :
    (compile (s.raised r) source : Except (Failure ε) Program) = compile s source := by
  have hsource : Program.ofSource source (s.raised r).maxNumber (s.raised r).maxNesting =
      Program.ofSource source s.maxNumber s.maxNesting := by
    refine Program.ofSource_raised hle fun f hf => h _ ?_
    simp only [compile, hf, Except.mapError]
    rfl
  unfold compile
  rw [hsource]

end Session

namespace Run

/-- The executor of the same program under raised limits. -/
def Executor.raised (e : Executor) (r : Limit → Nat) : Executor :=
  { e with
    settings := e.settings.raised r
    tally := { e.tally with
      maxSteps := (e.settings.raised r).maxSteps, maxDepth := (e.settings.raised r).maxDepth } }

/-- Limits do not count when an executor is made. -/
lemma Executor.create_raised (program : Program) (speed : Value) :
    (create program speed (s.raised r) : Except (Failure ε) _) =
      (create program speed s).map fun e => (e.1.raised r, e.2) := by
  have hspeed : (s.raised r).speed = s.speed := rfl
  unfold create
  rw [hspeed]
  cases program.main.isNone with
  | true => rfl
  | false =>
    cases Speed.resolve s.speed speed with
    | error f => rfl
    | ok chosen => cases Procedure.table program.procedures <;> rfl

/-! ### Running -/

def Rules.raised (R : Rules σ ε) (r : Limit → Nat) : Rules σ ε :=
  { R with settings := R.settings.raised r }

/-- A task keeps its outcome, unless that is the error of a raised limit. -/
theorem Leads.raised {R : Rules σ ε} {t : Task} {w : World σ} {o : Outcome σ ε}
    (h : Leads R t w o) (hl : ∀ f, o.failure = some f → Limit.Spares r f) :
    Leads (R.raised r) t w o := by
  induction h with
  | cancelled hc => exact .cancelled hc
  | @overLimit count body line w hc hn =>
    have hmax : (R.raised r).settings.maxRepeat = R.settings.maxRepeat :=
      (hl _ rfl).limit_raised (l := .repeats) (Failure.limit?_report _ _) R.settings
    rw [← hmax] at hn ⊢
    exact .overLimit hc hn
  | loop hc hn _ ih =>
    have hmax : (R.raised r).settings.maxRepeat = R.settings.maxRepeat + r .repeats := rfl
    exact .loop hc (by omega) (ih hl)
  | exhausted hs hc hn =>
    have hmax : (R.raised r).settings.maxSteps = R.settings.maxSteps :=
      (hl _ rfl).limit_raised (l := .steps) (Failure.limit?_report _ _) R.settings
    rw [← hmax] at hn ⊢
    exact .exhausted hs hc hn
  | step hs hc hn _ ih => exact .step hs hc (Nat.lt_add_right _ hn) (ih hl)
  | command hb => exact .command hb
  | refused hb => exact .refused hb
  | unknown hp => exact .unknown hp
  | tooDeep hp hd =>
    have hmax : (R.raised r).settings.maxDepth = R.settings.maxDepth :=
      (hl _ rfl).limit_raised (l := .depth) (Failure.limit?_report _ _) R.settings
    rw [← hmax] at hd ⊢
    exact .tooDeep hp hd
  | call hp hd _ ih =>
    rw [Outcome.failure_leave] at hl
    exact .call hp (Nat.lt_add_right _ hd) (ih hl)
  | yes hq _ ih => exact .yes hq (ih hl)
  | no hq _ ih => exact .no hq (ih hl)
  | neither hq => exact .neither hq
  | blind hq => exact .blind hq
  | foreign => exact .foreign
  | nil => exact .nil
  | cons _ _ ihs ihr => exact .cons (ihs fun _ hf => by cases hf) (ihr hl)
  | consFail _ ihs => exact .consFail (ihs hl)
  | noPass => exact .noPass
  | pass _ _ ihb ihr => exact .pass (ihb fun _ hf => by cases hf) (ihr hl)
  | passFail _ ihb => exact .passFail (ihb hl)

/-- All that can be seen of a program that is run. -/
structure Account (σ ε : Type) where
  program : Program
  /-- The number of steps, or what ended the run before the end of the program. -/
  result : Except (Failure ε) Nat
  board : Board
  steps : Nat
  commands : Nat
  calls : List String
  /-- The boards that the observer was shown. -/
  shown : List Board
  observer : σ
  pauses : Nat
  logs : List Log.Record

/-- The account of a run of the executor, after the records that were made with it. -/
def Executor.account (e : Executor) (observe : Observer σ ε) (st : σ) (board : Board)
    (logs : List Log.Record) : Account σ ε :=
  let after := e.run observe st board
  { program := e.program
    result := after.result
    board := after.board
    steps := after.executor.tally.steps
    commands := after.executor.tally.commands
    calls := after.executor.tally.stack
    shown := e.shown observe st board
    observer := after.observer
    pauses := after.pauses
    logs := logs ++ after.logs }

lemma Executor.account_raised (e : Executor) (observe : Observer σ ε) (st : σ) (board : Board)
    (logs : List Log.Record)
    (h : ∀ f, (e.run observe st board).result = .error f → Limit.Spares r f) :
    (e.raised r).account observe st board logs = e.account observe st board logs := by
  cases hmain : e.program.main with
  | none =>
    have hmain' : (e.raised r).program.main = none := hmain
    simp only [account, run, shown, hmain, hmain']
    rfl
  | some main =>
    obtain ⟨o, ho, hrun, hshown⟩ :=
      exists_leads_run hmain hereditary_blockIsInert observe st board
    have hmain' : (e.raised r).program.main = some main := hmain
    obtain ⟨o', ho', hrun', hshown'⟩ :=
      exists_leads_run hmain' hereditary_blockIsInert observe st board
    have hspares : ∀ f, o.failure = some f → Limit.Spares r f := by
      intro f hf
      refine h f ?_
      rw [hrun]
      cases o with
      | done => cases hf
      | fail g w =>
        cases hf
        rfl
    -- both outcomes are outcomes of the main block under the raised limits
    obtain rfl : o = o' := (ho.raised hspares).unique ho'
    simp only [account, hrun, hrun', hshown, hshown']
    rfl

end Run

namespace Session

/-- The account of a source text that is compiled and run, or why it is rejected. -/
def account (s : Settings) (source : String) (speed : Value) (observe : Run.Observer σ ε) (st : σ)
    (board : Board) : Except (Failure ε) (Run.Account σ ε) := do
  let (e, logs) ← prepare s source speed
  pure (e.account observe st board logs)

/-- The failure that a source text ends with, compiled or run. -/
def failure? : Except (Failure ε) (Run.Account σ ε) → Option (Failure ε)
  | .error f => some f
  | .ok a =>
    match a.result with
    | .error f => some f
    | .ok _ => none

/-- The limit whose error a source text ends with. -/
def exceeded? (a : Except (Failure ε) (Run.Account σ ε)) : Option Limit :=
  (failure? a).bind Failure.limit?

lemma prepare_raised {speed : Value} (hle : Lexer.Extends s.maxNumber (s.raised r).maxNumber)
    (h : ∀ f, (prepare s source speed : Except (Failure ε) _) = .error f → Limit.Spares r f) :
    (prepare (s.raised r) source speed : Except (Failure ε) _) =
      (prepare s source speed).map fun e => (e.1.raised r, e.2) := by
  have hcompile : (compile (s.raised r) source : Except (Failure ε) Program) =
      compile s source := by
    refine compile_raised hle fun f hf => h f ?_
    simp only [prepare, hf]
    rfl
  unfold prepare
  rw [hcompile]
  cases compile s source with
  | error f => rfl
  | ok program => exact Run.Executor.create_raised program speed

/-- **Raising limits is conservative**: a source text that does not end with the error of a limit
that `r` raises has the same account under the raised limits. It is the same program or rejected for
the same reason, and every board and observer see the same run. The greatest number must still be
one that can be written when it is raised. -/
theorem account_eq_of_limits_raised (s : Settings) (r : Limit → Nat) (source : String)
    (speed : Value) (observe : Run.Observer σ ε) (st : σ) (board : Board)
    (hw : r .number ≠ 0 → Text.Integer.isWritable (s.raised r).maxNumber = true)
    (h : ∀ l, r l ≠ 0 → exceeded? (account s source speed observe st board) ≠ some l) :
    account (s.raised r) source speed observe st board =
      account s source speed observe st board := by
  have hspares : ∀ f, failure? (account s source speed observe st board) = some f →
      Limit.Spares r f := by
    intro f hf l hl
    simpa [exceeded?, hf] using h l hl
  have hprepare : (prepare (s.raised r) source speed : Except (Failure ε) _) =
      (prepare s source speed).map fun e => (e.1.raised r, e.2) := by
    refine prepare_raised ⟨Nat.le_add_right _ _, fun hl => ?_⟩ fun f hf => hspares f ?_
    · by_cases hr : r .number = 0
      · simpa [Settings.raised, hr] using hl
      · exact hw hr
    rw [account, hf]
    rfl
  unfold account at hspares ⊢
  rw [hprepare]
  cases hp : (prepare s source speed : Except (Failure ε) _) with
  | error f => rfl
  | ok made =>
    rw [hp] at hspares
    refine congrArg Except.ok (Run.Executor.account_raised made.1 observe st board made.2 ?_)
    intro f hf
    refine hspares f ?_
    have hresult : (made.1.account observe st board made.2).result = .error f := hf
    change failure? (.ok (made.1.account observe st board made.2)) = some f
    simp only [failure?, hresult]

/-- All limits but one are raised, and the run ends with the error of that one. The others are just
met: they allow no larger number, no further block, step or pass. -/
theorem account_eq_of_limits_raised_recursive :
    let s : Settings :=
      { maxNumber := 3, maxNesting := 2, maxSteps := 3, maxDepth := 1, maxRepeat := 3 }
    let r : Limit → Nat := fun | .depth => 0 | _ => 7
    let source := "programa\x7brepetir 3 veces\x7bf()\x7d\x7dprocedimiento f()\x7bLimpiar f()\x7d"
    let observe : Run.Observer Nat String := fun n b => { state := n + 1, board := b.inked none }
    let board : Board := ⟨1, 1, 1, 1, .empty 1 1, .origin, .editing⟩
    Text.Integer.isWritable (s.raised r).maxNumber = true ∧
      exceeded? (account s source .null observe 0 board) = some .depth ∧
      account (s.raised r) source .null observe 0 board =
        account s source .null observe 0 board := by
  let main : MainBlock := ⟨[.loop 3 [.call "f" 1] 1], 1⟩
  let procedures : List Procedure := [⟨"f", [.command .clear 1, .call "f" 1], 1⟩]
  have hsource : Program.ofSource
      "programa\x7brepetir 3 veces\x7bf()\x7d\x7dprocedimiento f()\x7bLimpiar f()\x7d" 3 2 =
        .ok { main := some main, procedures := procedures } := by
    unfold Program.ofSource
    conv in tokenize _ _ => cbv
    rfl
  intro s r source observe board
  let e : Run.Executor :=
    { program := { main := some main, procedures := procedures }, table := procedures
      speed := .normal, settings := s, tally := Run.Executor.freshTally s }
  let fault : Run.Fault := .recursionLimit "f" 1 ["f", "f"] (some 1)
  have hprepare : (prepare s source .null : Except (Failure String) _) = .ok (e, []) := by
    rw [prepare, compile, hsource]
    rfl
  have hresult : (e.run observe 0 board).result = .error fault.failure := by
    -- into the loop, into the procedure, the command, and no further
    have hrun : (e.machine main board 0).run (e.code observe) = (some fault.failure, _) :=
      (Run.Machine.run_of_more rfl).trans ((Run.Machine.run_of_more rfl).trans
        ((Run.Machine.run_of_more rfl).trans (Run.Machine.run_of_halt rfl)))
    rw [Run.Executor.result_run rfl, hrun]
  have hexceeded : exceeded? (account s source .null observe 0 board) = some .depth := by
    have hfailure : failure? (account s source .null observe 0 board) = some fault.failure := by
      rw [account, hprepare]
      change failure? (.ok (e.account observe 0 board [])) = _
      simp only [failure?, Run.Executor.account, hresult]
    rw [exceeded?, hfailure]
    rfl
  have hw : Text.Integer.isWritable (s.raised r).maxNumber = true := by decide
  refine ⟨hw, hexceeded,
    account_eq_of_limits_raised s r source .null observe 0 board (fun _ => hw) ?_⟩
  intro l hl
  rw [hexceeded]
  rintro ⟨⟩
  exact hl rfl

/-- **A limit of too many digits**: raised that far, the greatest number keeps even a digit from
being read, and the text is rejected for another reason. -/
theorem account_of_unwritable_limit :
    let s : Settings := {}
    let r : Limit → Nat := fun l => if l = .number then 10 ^ Text.Integer.maxDigits else 0
    let board : Board := ⟨1, 1, 1, 1, .empty 1 1, .origin, .editing⟩
    let after (s : Settings) := account s "1" .null (Run.Observer.silent Unit String) () board
    (∀ l, exceeded? (after s) ≠ some l) ∧ after (s.raised r) ≠ after s := by
  intro s r board after
  have hraised : Text.Integer.isWritable (s.raised r).maxNumber = false := by
    rw [Bool.eq_false_iff]
    intro h
    have hle : 10 ^ Text.Integer.maxDigits ≤ (s.raised r).maxNumber := Nat.le_add_left _ _
    exact Bool.false_ne_true
      (Text.Integer.isWritable_pow.symm.trans (Text.Integer.isWritable_of_le hle h))
  let f : SyntaxFault := ⟨.strayElement, ⟨.number, .number 1, 1, 1⟩, 1, some 1⟩
  have hbefore : after s = .error (.diagnostic f.diagnostic) := by
    have hsource : Program.ofSource "1" 1000000 100 = .error (.tokens (.parse (.grammar f))) := by
      unfold Program.ofSource
      conv in tokenize _ _ => cbv
      rfl
    simp only [after, account, prepare, compile]
    rw [hsource]
    rfl
  have hafter : after (s.raised r) = .error (.unwritable none) := by
    simp only [after, account, prepare, compile, Program.ofSource]
    rw [Lexer.tokenize_digit hraised]
    rfl
  have hlimit : f.diagnostic.limit? = none := by decide
  rw [hbefore, hafter]
  exact ⟨fun l => by simp [exceeded?, failure?, Failure.limit?, hlimit], by simp⟩

end Session

end Trazo
