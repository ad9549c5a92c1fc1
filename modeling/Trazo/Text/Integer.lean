import Trazo.Text.Blank
import Trazo.Text.Digit
import Trazo.Text.Quoted

/-!
Integers written by people: blanks around, a sign, decimal digits of any script, and single
underscores between digits. Reading them and writing them have the same limit on digits.
-/

namespace Trazo.Text.Integer

/-- Why a text is not read as an integer. -/
inductive Fault
  | malformed (s : String)
  | tooLong (digits : Nat)
  deriving DecidableEq

/-- A numeral with more digits than this is refused, and an integer with more is never written. -/
def maxDigits : Nat := 4300

/-- Whether an integer has no more digits than can be written. -/
def isWritable (n : Int) : Bool := (Nat.toDigits 10 n.natAbs).length ≤ maxDigits

/-- What is said where an integer that cannot be written was to be. -/
def unwritableMessage : String :=
  "Exceeds the limit (" ++ toString maxDigits ++ " digits) for integer string conversion; " ++
    "use sys.set_int_max_str_digits() to increase the limit"

/-- Of a malformed text no more than 200 characters are shown, the opening quote counted. -/
def Fault.message : Fault → String
  | .malformed s =>
    "invalid literal for int() with base 10: " ++ String.ofList ((quoted s).toList.take 200)
  | .tooLong n =>
    "Exceeds the limit (" ++ toString maxDigits ++
      " digits) for integer string conversion: value has " ++ toString n ++
      " digits; use sys.set_int_max_str_digits() to increase the limit"

/-- Blanks around a numeral. The separators U+001C to U+001F are not among them. -/
def isMargin (c : Char) : Bool := isBlank c && !(0x1c ≤ c.toNat && c.toNat ≤ 0x1f)

/-- The digits at the start of a text and what follows them. `gap` says that the last character
was no digit, so that an underscore or the end may not come next. -/
def digitRun (gap : Bool) (ds : List Nat) : List Char → Option (List Nat × List Char)
  | [] => if gap then none else some (ds.reverse, [])
  | c :: r =>
    if c = '_' then
      if gap then none else digitRun true ds r
    else
      match digit? c with
      | some d => digitRun false (d :: ds) r
      | none => if gap then none else some (ds.reverse, c :: r)

/-- The sign at the start of a text, if there is one, and what follows it. -/
def sign : List Char → Bool × List Char
  | '-' :: r => (true, r)
  | '+' :: r => (false, r)
  | r => (false, r)

def signed (negative : Bool) (n : Nat) : Int := if negative then -(n : Int) else n

def read (s : String) : Except Fault Int :=
  let (negative, body) := sign (s.toList.dropWhile isMargin)
  match digitRun true [] body with
  | none => .error (.malformed s)
  | some (ds, rest) =>
    if ds.length > maxDigits then .error (.tooLong ds.length)
    else if (rest.dropWhile isMargin).isEmpty then .ok (signed negative (ofDigits ds))
    else .error (.malformed s)

end Trazo.Text.Integer
