import Trazo.Number.Shortest

/-!
Numbers as they are given: whole, or with a fraction part.
-/

namespace Trazo

inductive Number
  | whole (n : Int)
  | real (x : Binary64)
  deriving DecidableEq, Inhabited

namespace Number

def toBinary64 : Number → Binary64
  | .whole n => .ofInt n
  | .real x => x

def display : Number → String
  | .whole n => toString n
  | .real x => x.display

/-- Whether the number lies between zero and one. -/
def isProportion (x : Number) : Bool :=
  Binary64.zero.le x.toBinary64 && x.toBinary64.le (.ofInt 1)

end Number

end Trazo
