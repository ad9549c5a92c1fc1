import Trazo.Run.Executor

/-!
What is told of a run or of a program, and on which of the two streams.
-/

namespace Trazo

/-- Text for the output and for the error stream. -/
structure Report where
  out : String := ""
  err : String := ""
  deriving DecidableEq, Inhabited

namespace Report

def append (a b : Report) : Report := ⟨a.out ++ b.out, a.err ++ b.err⟩

instance : Append Report := ⟨append⟩

def line (s : String) : Report := { out := s ++ "\n" }
def errLine (s : String) : Report := { err := s ++ "\n" }

def success (s : String) : Report := line ("✓ " ++ s)
def failure (s : String) : Report := errLine ("✗ " ++ s)

def lines (ss : List String) : Report := { out := String.join (ss.map (· ++ "\n")) }

/-- The outcome of a run in one message. -/
def result (r : Run.Result) : Report :=
  if r.success then success (r.message ++ ", " ++ toString r.commands ++ " command(s)")
  else if r.cancelled then failure ("Cancelled after " ++ toString r.steps ++ " steps")
  else failure r.message

def summary (p : Program) : Report := lines p.summary

end Report

end Trazo
