import Trazo.Speed

/-!
The limits and defaults that the interpreter works under.
-/

namespace Trazo

/-- The pause after each command, in milliseconds, for each speed. -/
structure Delays where
  instant : Nat := 0
  fast : Nat := 30
  normal : Nat := 150
  slow : Nat := 500
  deriving DecidableEq, Inhabited

def Delays.get (d : Delays) : Speed → Nat
  | .instant => d.instant
  | .fast => d.fast
  | .normal => d.normal
  | .slow => d.slow

structure Settings where
  /-- Statements run before a run is stopped. -/
  maxSteps : Nat := 100000
  /-- Calls inside one another. -/
  maxDepth : Nat := 1000
  /-- The greatest count of a loop. -/
  maxRepeat : Nat := 10000
  /-- The greatest number in a source. -/
  maxNumber : Nat := 1000000
  /-- Blocks inside one another, the outermost counted. -/
  maxNesting : Nat := 100
  minSide : Nat := 1
  maxSide : Nat := 50
  speed : Speed := .normal
  delays : Delays := {}
  logLevel : Log.Level := .warning
  deriving DecidableEq, Inhabited

/-- The pause at a speed, in seconds. -/
def Settings.pause (s : Settings) (v : Speed) : Binary64 := .ofRatio false (s.delays.get v) 1000

/-- What is said of a pause that is longer than any number of seconds. -/
def Settings.endlessPauseMessage : String := "integer division result too large for a float"

end Trazo
