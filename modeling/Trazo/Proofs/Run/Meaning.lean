import Mathlib.Tactic.Lemma
import Trazo.Run.Executor

/-!
What a program means, following its structure and with no stack in sight.

A block runs its statements from left to right, a loop runs its body as often as it says, a call
runs the body of its procedure, and the first failure ends everything. The rules relate a task and
the world it starts in to its outcome. No task has two outcomes.
-/

namespace Trazo.Run

variable {σ ε : Type}

/-- All that a run can see and change. -/
structure World (σ : Type) where
  board : Board
  steps : Nat := 0
  commands : Nat := 0
  /-- The procedures being run, the outermost first. -/
  calls : List String := []
  cancelled : Bool := false
  pauses : Nat := 0
  /-- The boards that the observer has been shown. -/
  seen : List Board := []
  observer : σ

/-- How a task ends. The world is the one in which it finished or failed. -/
inductive Outcome (σ ε : Type)
  | done (w : World σ)
  | fail (f : Failure ε) (w : World σ)

/-- What stays the same during a run. -/
structure Rules (σ ε : Type) where
  procedures : List Procedure
  settings : Settings
  observe : Observer σ ε

namespace World

def stop (w : World σ) (f : Fault) : Outcome σ ε := .fail f.failure w

def enter (w : World σ) (name : String) : World σ := { w with calls := w.calls ++ [name] }

def leave (w : World σ) : World σ := { w with calls := w.calls.dropLast }

/-- The observer is shown the board and reacts. The run pauses unless the observer raised. -/
def present (R : Rules σ ε) (w : World σ) : Outcome σ ε :=
  let r := R.observe w.observer w.board
  let after := { w with
    seen := w.seen ++ [w.board]
    observer := r.state
    board := r.board
    cancelled := w.cancelled || r.cancels }
  match r.raised with
  | some f => .fail f after
  | none => .done { after with pauses := w.pauses + 1 }

end World

/-- The outcome of a call, given that of its body: the name is taken away either way. -/
def Outcome.leave : Outcome σ ε → Outcome σ ε
  | .done w => .done w.leave
  | .fail f w => .fail f w.leave

/-- What is to be run: a statement that has not been counted as a step yet, one that has, a block,
or a number of passes through a block. -/
inductive Task
  | statement (s : Statement)
  | counted (s : Statement)
  | block (b : Block)
  | passes (n : Nat) (b : Block)

/-- Loops are not counted as steps, all other statements are. -/
def isCounted : Statement → Bool
  | .loop .. => false
  | .command .. | .call .. | .branch .. | .foreign .. => true

/-- Under the rules `R`, a task that starts in the world `w` has the outcome `o`. -/
inductive Leads (R : Rules σ ε) : Task → World σ → Outcome σ ε → Prop
  -- a stop is honoured before any statement
  | cancelled {s : Statement} {w : World σ} (hc : w.cancelled = true) :
      Leads R (.statement s) w (w.stop (.cancelled s.line))
  | overLimit {count : Int} {body : Block} {line : Int} {w : World σ} (hc : w.cancelled = false)
      (hn : R.settings.maxRepeat < count) :
      Leads R (.statement (.loop count body line)) w
        (w.stop (.repeatLimit count R.settings.maxRepeat line))
  | loop {count : Int} {body : Block} {line : Int} {w : World σ} {o : Outcome σ ε}
      (hc : w.cancelled = false) (hn : count ≤ R.settings.maxRepeat)
      (h : Leads R (.passes count.toNat body) w o) :
      Leads R (.statement (.loop count body line)) w o
  | exhausted {s : Statement} {w : World σ} (hs : isCounted s = true) (hc : w.cancelled = false)
      (hn : R.settings.maxSteps ≤ w.steps) :
      Leads R (.statement s) w (w.stop (.stepLimit R.settings.maxSteps (some s.line)))
  | step {s : Statement} {w : World σ} {o : Outcome σ ε} (hs : isCounted s = true)
      (hc : w.cancelled = false) (hn : w.steps < R.settings.maxSteps)
      (h : Leads R (.counted s) { w with steps := w.steps + 1 } o) :
      Leads R (.statement s) w o
  -- commands
  | command {c : Command} {line : Int} {w : World σ} {b : Board}
      (hb : w.board.perform c (some line) = .ok b) :
      Leads R (.counted (.command c line)) w
        ({ w with board := b, commands := w.commands + 1 }.present R)
  | refused {c : Command} {line : Int} {w : World σ} {f : BoardFailure}
      (hb : w.board.perform c (some line) = .error f) :
      Leads R (.counted (.command c line)) w (.fail (.ofBoardFailure f) w)
  -- calls
  | unknown {name : String} {line : Int} {w : World σ}
      (hp : Procedure.find? R.procedures name = none) :
      Leads R (.counted (.call name line)) w
        (w.stop (.unknownProcedure name (R.procedures.map (·.name)) line))
  | tooDeep {name : String} {line : Int} {w : World σ} {p : Procedure}
      (hp : Procedure.find? R.procedures name = some p)
      (hd : R.settings.maxDepth ≤ w.calls.length) :
      Leads R (.counted (.call name line)) w
        (w.stop (.recursionLimit name R.settings.maxDepth (w.calls ++ [name]) (some line)))
  | call {name : String} {line : Int} {w : World σ} {p : Procedure} {o : Outcome σ ε}
      (hp : Procedure.find? R.procedures name = some p)
      (hd : w.calls.length < R.settings.maxDepth)
      (h : Leads R (.block p.body) (w.enter name) o) :
      Leads R (.counted (.call name line)) w o.leave
  -- conditions
  | yes {q : Sensor} {b : Block} {no : Option Block} {line : Int} {w : World σ} {o : Outcome σ ε}
      (hq : w.board.senses q = .ok true) (h : Leads R (.block b) w o) :
      Leads R (.counted (.branch q b no line)) w o
  | no {q : Sensor} {yes b : Block} {line : Int} {w : World σ} {o : Outcome σ ε}
      (hq : w.board.senses q = .ok false) (h : Leads R (.block b) w o) :
      Leads R (.counted (.branch q yes (some b) line)) w o
  | neither {q : Sensor} {yes : Block} {line : Int} {w : World σ}
      (hq : w.board.senses q = .ok false) :
      Leads R (.counted (.branch q yes none line)) w (.done w)
  -- the cell under the head may be missing
  | blind {q : Sensor} {yes : Block} {no : Option Block} {line : Int} {w : World σ} {f : GridFault}
      (hq : w.board.senses q = .error f) :
      Leads R (.counted (.branch q yes no line)) w (.fail (.grid f) w)
  | foreign {kind : String} {line : Int} {w : World σ} :
      Leads R (.counted (.foreign kind line)) w (.fail (.unknownStatement kind) w)
  -- from left to right, up to the first failure
  | nil {w : World σ} : Leads R (.block []) w (.done w)
  | cons {s : Statement} {r : Block} {w v : World σ} {o : Outcome σ ε}
      (hs : Leads R (.statement s) w (.done v)) (hr : Leads R (.block r) v o) :
      Leads R (.block (s :: r)) w o
  | consFail {s : Statement} {r : Block} {w v : World σ} {f : Failure ε}
      (hs : Leads R (.statement s) w (.fail f v)) : Leads R (.block (s :: r)) w (.fail f v)
  | noPass {b : Block} {w : World σ} : Leads R (.passes 0 b) w (.done w)
  | pass {n : Nat} {b : Block} {w v : World σ} {o : Outcome σ ε}
      (hb : Leads R (.block b) w (.done v)) (hr : Leads R (.passes n b) v o) :
      Leads R (.passes (n + 1) b) w o
  | passFail {n : Nat} {b : Block} {w v : World σ} {f : Failure ε}
      (hb : Leads R (.block b) w (.fail f v)) : Leads R (.passes (n + 1) b) w (.fail f v)

/-- **The meaning is unique**: a task has at most one outcome. -/
theorem Leads.unique {R : Rules σ ε} {t : Task} {w : World σ} {o o' : Outcome σ ε}
    (h : Leads R t w o) (h' : Leads R t w o') : o = o' := by
  induction h generalizing o' with
  | cancelled hc => cases h' <;> simp_all
  | overLimit hc hn =>
    cases h' <;> simp_all [isCounted]
    omega
  | loop hc hn _ ih =>
    cases h' with
    | loop _ _ h => exact ih h
    | _ => simp_all [isCounted] <;> omega
  | exhausted hs hc hn =>
    cases h' <;> simp_all [isCounted]
    omega
  | step hs hc hn _ ih =>
    cases h' with
    | step _ _ _ h => exact ih h
    | _ => simp_all [isCounted] <;> omega
  | command hb => cases h' <;> simp_all
  | refused hb => cases h' <;> simp_all
  | unknown hp => cases h' <;> simp_all
  | tooDeep hp hd =>
    cases h' <;> simp_all
    omega
  | call hp hd _ ih =>
    cases h' with
    | call hp' _ h =>
      obtain rfl := Option.some.inj (hp.symm.trans hp')
      rw [ih h]
    | _ => simp_all <;> omega
  | yes hq _ ih =>
    cases h' with
    | yes _ h => exact ih h
    | _ => simp_all
  | no hq _ ih =>
    cases h' with
    | no _ h => exact ih h
    | _ => simp_all
  | neither hq => cases h' <;> simp_all
  | blind hq => cases h' <;> simp_all
  | foreign => cases h'; rfl
  | nil => cases h'; rfl
  | cons _ _ ihs ihr =>
    cases h' with
    | cons hs hr =>
      obtain rfl := Outcome.done.inj (ihs hs)
      exact ihr hr
    | consFail hs => cases ihs hs
  | consFail _ ihs =>
    cases h' with
    | cons hs hr => cases ihs hs
    | consFail hs => exact ihs hs
  | noPass => cases h'; rfl
  | pass _ _ ihb ihr =>
    cases h' with
    | pass hb hr =>
      obtain rfl := Outcome.done.inj (ihb hb)
      exact ihr hr
    | passFail hb => cases ihb hb
  | passFail _ ihb =>
    cases h' with
    | pass hb hr => cases ihb hb
    | passFail hb => exact ihb hb

end Trazo.Run
