import Trazo.Failure
import Trazo.Similarity

/-!
What a run keeps count of: statements begun, commands done, and the calls it is inside. Both the
statements and the calls have a limit.
-/

namespace Trazo.Run

/-- Why a run stops before the end of its program. -/
inductive Fault
  | stepLimit (limit : Int) (line : Option Int)
  | recursionLimit (name : String) (limit : Int) (stack : List String) (line : Option Int)
  | repeatLimit (count : Int) (limit : Nat) (line : Int)
  | unknownProcedure (name : String) (available : List String) (line : Int)
  | cancelled (line : Int)
  deriving DecidableEq

/-- The integers that the text of the diagnostic is written with. -/
def Fault.numbers : Fault → List Int
  | .stepLimit limit _ | .recursionLimit _ limit _ _ => [limit]
  | .repeatLimit count limit _ => [count, limit]
  | .unknownProcedure .. | .cancelled _ => []

def Fault.diagnostic : Fault → Diagnostic
  | .stepLimit limit line =>
    { kind := .stepLimit (some limit)
      message := "Execution limit exceeded (" ++ toString limit ++ " steps)"
      line := line
      hint := some ("Possible infinite loop or very long program. " ++
        "Check your 'repetir' loops and recursive calls.") }
  | .recursionLimit name limit stack line =>
    { kind := .recursionLimit (some limit) stack
      message := "Recursion depth exceeded in '" ++ name ++ "' (limit: " ++ toString limit ++ ")"
      line := line
      hint := some "A procedure keeps calling itself (or others) without stopping." }
  | .repeatLimit count limit line =>
    { kind := .repeatLimit (some count) (some limit)
      message := "Too many repetitions (" ++ toString count ++ ")"
      line := some line
      hint := some ("The limit is " ++ toString limit ++
        ". If you need more iterations, check your logic.") }
  | .unknownProcedure name available line =>
    { kind := .unknownProcedure (some name) available
      message := "Procedure '" ++ name ++ "' does not exist"
      line := some line
      hint := (Similarity.suggestAt Similarity.looseCutoff name available).bind fun s =>
        if s.isEmpty then none else some ("Did you mean '" ++ s ++ "'?") }
  | .cancelled line =>
    { kind := .cancelled
      message := "Execution stopped by the user"
      line := some line }

def Fault.failure {ε : Type} (f : Fault) : Failure ε := .report f.numbers f.diagnostic

/-- The procedures being run, the innermost first, and how many there are. -/
structure Calls where
  names : List String
  depth : Nat
  depth_eq : depth = names.length
  deriving DecidableEq

namespace Calls

def empty : Calls := ⟨[], 0, rfl⟩

instance : Inhabited Calls := ⟨empty⟩

def push (c : Calls) (name : String) : Calls where
  names := name :: c.names
  depth := c.depth + 1
  depth_eq := by simp [c.depth_eq]

/-- Takes the innermost call away, if there is one. -/
def pop (c : Calls) : Calls where
  names := c.names.tail
  depth := c.depth - 1
  depth_eq := by simp [c.depth_eq]

end Calls

structure Tally where
  maxSteps : Int
  maxDepth : Int
  steps : Nat := 0
  commands : Nat := 0
  calls : Calls := .empty
  deriving DecidableEq, Inhabited

namespace Tally

/-- The calls from the outermost to the innermost. -/
def stack (t : Tally) : List String := t.calls.names.reverse

/-- Counts a statement that is about to run. -/
def step (t : Tally) (line : Option Int) : Except Fault Tally :=
  if (t.steps : Int) ≥ t.maxSteps then .error (.stepLimit t.maxSteps line)
  else .ok { t with steps := t.steps + 1 }

/-- Goes into a call. -/
def enter (t : Tally) (name : String) (line : Option Int) : Except Fault Tally :=
  if (t.calls.depth : Int) ≥ t.maxDepth then
    .error (.recursionLimit name t.maxDepth (t.stack ++ [name]) line)
  else .ok { t with calls := t.calls.push name }

/-- Comes back from the innermost call, if there is one. -/
def leave (t : Tally) : Tally := { t with calls := t.calls.pop }

/-- How many statements may still run. -/
def left (t : Tally) : Nat := (t.maxSteps - t.steps).toNat

end Tally

end Trazo.Run
