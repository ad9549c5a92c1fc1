import Trazo.Text.Blank
import Trazo.Text.Integer

/-!
Integers in the texts of settings.

A text is brought to a plain numeral in steps: blanks around it and a plus sign go, then the zeros
it starts with, then a fraction part of zeros, then the underscores. The zeros go together with
any underscores among them, and they may stand before a minus sign. What is left is a minus sign,
if any, and ASCII digits.
-/

namespace Trazo.Settings.Numeral

/-- Why a text is no integer. -/
inductive Fault
  | malformed
  | tooLong
  deriving DecidableEq

def isDigit (c : Char) : Bool := '0' ≤ c && c ≤ '9'

/-- What a numeral goes on with after its zeros: another digit, or the sign. -/
def isStart (c : Char) : Bool := ('1' ≤ c && c ≤ '9') || c = '-'

/-- A text without its plus sign. A minus sign may not follow. -/
def dropPlus : List Char → Option (List Char)
  | '+' :: '-' :: _ => none
  | '+' :: r => some r
  | r => some r

/-- Goes on after a zero, `last` being the character before. A character stays in front of a point,
and one stays when the text ends. -/
def afterZero (last : Char) : List Char → Option (List Char)
  | [] => some [last]
  | c :: r =>
    if c = '0' || c = '_' then afterZero c r
    else if isStart c then some (c :: r)
    else if c = '.' then some (last :: c :: r)
    else none

/-- A text without the zeros it starts with. -/
def dropZeros : List Char → Option (List Char)
  | '0' :: r => afterZero '0' r
  | c :: r => if isStart c then some (c :: r) else none
  | [] => none

/-- A text without a point and the zeros after it, at least one, when nothing else follows. -/
def dropFraction (cs : List Char) : List Char :=
  let whole := cs.takeWhile (· ≠ '.')
  let fraction := cs.drop (whole.length + 1)
  if !fraction.isEmpty && fraction.all (· = '0') then whole else cs

/-- Whether two underscores stand side by side. -/
def hasPair : List Char → Bool
  | '_' :: '_' :: _ => true
  | _ :: r => hasPair r
  | [] => false

/-- A text without its underscores, which stand one by one and at neither end. -/
def dropUnderscores (cs : List Char) : Option (List Char) :=
  if cs.head? = some '_' || cs.getLast? = some '_' || hasPair cs then none
  else some (cs.filter (· ≠ '_'))

/-- A text as a plain numeral. -/
def plain (cs : List Char) : Option (List Char) := do
  let cs ← dropPlus (Text.trimBy Text.Integer.isMargin cs)
  let cs ← dropZeros cs
  dropUnderscores (dropFraction cs)

/-- Numbers below this one are read however many zeros they start with. -/
def wordLimit : Nat := 0x8000000000000000

/-- The number that a plain numeral writes. Its sign counts when its length is limited. -/
def value (cs : List Char) : Except Fault Int :=
  let negative := cs.head? = some '-'
  let body := if negative then cs.drop 1 else cs
  let ds := body.takeWhile isDigit
  let n := Text.ofDigits (ds.map fun c => c.toNat - '0'.toNat)
  let length := if negative then ds.length + 1 else ds.length
  if ds.isEmpty then .error .malformed
  else if length > Text.Integer.maxDigits && n ≥ wordLimit then .error .tooLong
  else if ds.length < body.length then .error .malformed
  else .ok (Text.Integer.signed negative n)

def read (s : String) : Except Fault Int :=
  match plain s.toList with
  | none => .error .malformed
  | some cs => value cs

end Trazo.Settings.Numeral
