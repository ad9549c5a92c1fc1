/-!
A place in a text that is being read as a value.
-/

namespace Trazo

/-- The rest of a text and the place where it starts. -/
structure Reader where
  rest : List Char
  pos : Nat
  deriving Inhabited

namespace Reader

def start (source : List Char) : Reader := ⟨source, 0⟩

def drop (r : Reader) (n : Nat) : Reader := ⟨r.rest.drop n, r.pos + n⟩

def head? (r : Reader) : Option Char := r.rest.head?

def startsWith (r : Reader) (s : String) : Bool := s.toList.isPrefixOf r.rest

def skipWhile (r : Reader) (p : Char → Bool) : Reader := r.drop (r.rest.takeWhile p).length

/-- The text between two places, the first of them before the second. -/
def upTo (r s : Reader) : List Char := r.rest.take (s.pos - r.pos)

end Reader

end Trazo
