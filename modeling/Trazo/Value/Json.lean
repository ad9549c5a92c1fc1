import Trazo.Text.Integer
import Trazo.Value
import Trazo.Value.Reader

/-!
Reading values written in JSON.

Numbers without fraction and exponent are integers; all others, with `NaN`, `Infinity` and
`-Infinity`, are floating-point numbers. Of two entries with one key the last counts.
-/

namespace Trazo.Json

/-- What is wrong with a text. -/
inductive Problem
  | byteOrderMark
  | value
  | extraData
  | propertyName
  | colon
  | comma
  | unterminatedString
  | controlCharacter
  | escape
  | unicodeEscape
  deriving DecidableEq

def Problem.message : Problem → String
  | .byteOrderMark => "Unexpected UTF-8 BOM (decode using utf-8-sig)"
  | .value => "Expecting value"
  | .extraData => "Extra data"
  | .propertyName => "Expecting property name enclosed in double quotes"
  | .colon => "Expecting ':' delimiter"
  | .comma => "Expecting ',' delimiter"
  | .unterminatedString => "Unterminated string starting at"
  | .controlCharacter => "Invalid control character at"
  | .escape => "Invalid \\escape"
  | .unicodeEscape => "Invalid \\uXXXX escape"

inductive Fault
  | malformed (p : Problem) (pos : Nat)
  | integer (f : Text.Integer.Fault)
  deriving DecidableEq

/-- A fault in words, with line, column and place in the text. -/
def Fault.message (source : List Char) : Fault → String
  | .integer f => f.message
  | .malformed p pos =>
    let before := source.take pos
    let line := before.count '\n' + 1
    let column := (before.reverse.takeWhile (· ≠ '\n')).length + 1
    p.message ++ ": line " ++ toString line ++ " column " ++ toString column ++ " (char " ++
      toString pos ++ ")"

def failAt {α : Type} (r : Reader) (p : Problem) : Except Fault α := .error (.malformed p r.pos)

def isBlank (c : Char) : Bool := c = ' ' || c = '\t' || c = '\n' || c = '\r'

def skip (r : Reader) : Reader := r.skipWhile isBlank

/-! ### Strings -/

def hexValue? (c : Char) : Option Nat :=
  if '0' ≤ c && c ≤ '9' then some (c.toNat - '0'.toNat)
  else if 'a' ≤ c && c ≤ 'f' then some (c.toNat - 'a'.toNat + 10)
  else if 'A' ≤ c && c ≤ 'F' then some (c.toNat - 'A'.toNat + 10)
  else none

def escape? : Char → Option Char
  | '"' => some '"'
  | '\\' => some '\\'
  | '/' => some '/'
  | 'b' => some '\x08'
  | 'f' => some '\x0c'
  | 'n' => some '\n'
  | 'r' => some '\r'
  | 't' => some '\t'
  | _ => none

/-- The code units of a string up to its closing quote. -/
def units (start pos : Nat) (done : List Nat) : List Char → Except Fault (List Nat × Reader)
  | [] => .error (.malformed .unterminatedString start)
  | '"' :: r => .ok (done.reverse, ⟨r, pos + 1⟩)
  | ['\\'] => .error (.malformed .unterminatedString start)
  | '\\' :: 'u' :: a :: b :: c :: d :: r =>
    match [a, b, c, d].mapM hexValue?, r.isEmpty with
    | some ds, false => units start (pos + 6) (ds.foldl (16 * · + ·) 0 :: done) r
    | _, _ => .error (.malformed .unicodeEscape (pos + 1))
  | '\\' :: c :: r =>
    match escape? c with
    | some x => units start (pos + 2) (x.toNat :: done) r
    | none => .error (.malformed (if c = 'u' then .unicodeEscape else .escape)
        (if c = 'u' then pos + 1 else pos))
  | c :: r =>
    if c.toNat < 0x20 then .error (.malformed .controlCharacter pos)
    else units start (pos + 1) (c.toNat :: done) r

/-- Characters from code units. Two units that form a pair are one character, and a unit that
lacks its partner is replaced. -/
def characters : List Nat → List Char
  | [] => []
  | [h] => [if 0xd800 ≤ h && h < 0xe000 then '\ufffd' else Char.ofNat h]
  | h :: l :: r =>
    if 0xd800 ≤ h && h < 0xdc00 && 0xdc00 ≤ l && l < 0xe000 then
      Char.ofNat (0x10000 + (h - 0xd800) * 0x400 + (l - 0xdc00)) :: characters r
    else
      (if 0xd800 ≤ h && h < 0xe000 then '\ufffd' else Char.ofNat h) :: characters (l :: r)

/-- A string after its opening quote. -/
def string (r : Reader) : Except Fault (String × Reader) := do
  let (us, r) ← units (r.pos - 1) r.pos [] r.rest
  pure (String.ofList (characters us), r)

/-! ### Numbers -/

def isDigit (c : Char) : Bool := '0' ≤ c && c ≤ '9'

private def number? (ds : List Char) : Nat := Text.ofDigits (ds.map fun c => c.toNat - '0'.toNat)

/-- The digits before the point: a zero alone, or digits that start with no zero. -/
def wholePart : List Char → List Char
  | '0' :: _ => ['0']
  | cs => cs.takeWhile isDigit

/-- The digits after a point, none when there is no point with a digit after it. -/
def fractionPart : List Char → List Char
  | '.' :: r => r.takeWhile isDigit
  | _ => []

/-- The exponent at the start of a text: its sign, its digits and its length. -/
def exponentPart : List Char → Option (Bool × List Char × Nat)
  | c :: r =>
    if c = 'e' || c = 'E' then
      let (signLength, ds) := match r with
        | '+' :: s => (1, s.takeWhile isDigit)
        | '-' :: s => (1, s.takeWhile isDigit)
        | s => (0, s.takeWhile isDigit)
      if ds.isEmpty then none
      else some (r.head? = some '-', ds, 1 + signLength + ds.length)
    else none
  | [] => none

/-- A number that starts at the reader, if one does. -/
def number (r : Reader) : Except Fault (Value × Reader) :=
  let negative := r.rest.head? = some '-'
  let body := if negative then r.rest.drop 1 else r.rest
  let whole := wholePart body
  if whole.isEmpty then failAt r .value
  else
    let after := body.drop whole.length
    let fraction := fractionPart after
    let fractionLength := if fraction.isEmpty then 0 else fraction.length + 1
    let exponent := exponentPart (after.drop fractionLength)
    let length := (if negative then 1 else 0) + whole.length + fractionLength +
      (exponent.elim 0 fun e => e.2.2)
    if fraction.isEmpty && exponent.isNone then
      match Text.Integer.read (String.ofList (r.rest.take length)) with
      | .ok n => .ok (.int n, r.drop length)
      | .error f => .error (.integer f)
    else
      let e : Int := match exponent with
        | none => 0
        | some (neg, ds, _) => Text.Integer.signed neg (number? ds)
      .ok (.float (.ofDecimal negative (number? (whole ++ fraction)) (e - fraction.length)),
        r.drop length)

/-! ### Values -/

/-- The names of fixed values. -/
def constants : List (String × Value) :=
  [("null", .null), ("true", .bool true), ("false", .bool false), ("NaN", .float .nan),
   ("Infinity", .float (.infinite false)), ("-Infinity", .float (.infinite true))]

/-- The items of a list after its opening bracket, at most `n` of them. -/
def items (value : Reader → Except Fault (Value × Reader)) (done : List Value) :
    Nat → Reader → Except Fault (List Value × Reader)
  | 0, r => failAt r .value
  | n + 1, r => do
    let (v, r) ← value r
    let r := skip r
    match r.rest with
    | ']' :: _ => pure ((v :: done).reverse, r.drop 1)
    | ',' :: _ => items value (v :: done) n (skip (r.drop 1))
    | _ => failAt r .comma

/-- The entries of a table after its opening brace, at most `n` of them. -/
def entries (value : Reader → Except Fault (Value × Reader)) (done : Table) :
    Nat → Reader → Except Fault (Table × Reader)
  | 0, r => failAt r .propertyName
  | n + 1, r =>
    match r.rest with
    | '"' :: _ => do
      let (key, r) ← string (r.drop 1)
      let r := skip r
      match r.rest with
      | ':' :: _ =>
        let (v, r) ← value (skip (r.drop 1))
        let r := skip r
        let done := Table.insert done key v
        match r.rest with
        | '\x7d' :: _ => pure (done, r.drop 1)
        | ',' :: _ => entries value done n (skip (r.drop 1))
        | _ => failAt r .comma
      | _ => failAt r .colon
    | _ => failAt r .propertyName

/-- A value with no more than `room` lists and tables inside one another. -/
def value : Nat → Reader → Except Fault (Value × Reader)
  | 0, r => failAt r .value
  | room + 1, r =>
    match r.rest with
    | '"' :: _ => do
      let (s, r) ← string (r.drop 1)
      pure (.text s, r)
    | '[' :: _ =>
      let r := skip (r.drop 1)
      match r.rest with
      | ']' :: _ => .ok (.list [], r.drop 1)
      | _ => do
        let (vs, r) ← items (value room) [] (r.rest.length + 1) r
        pure (.list vs, r)
    | '\x7b' :: _ =>
      let r := skip (r.drop 1)
      match r.rest with
      | '\x7d' :: _ => .ok (.table [], r.drop 1)
      | _ => do
        let (es, r) ← entries (value room) [] (r.rest.length + 1) r
        pure (.table es, r)
    | _ =>
      match constants.find? fun e => e.1.toList.isPrefixOf r.rest with
      | some (name, v) => .ok (v, r.drop name.length)
      | none => number r

/-- The value that a whole text writes. -/
def read (source : List Char) : Except Fault Value := do
  if source.head? = some '\ufeff' then throw (.malformed .byteOrderMark 0)
  let (v, r) ← value (source.length + 1) (skip (.start source))
  let r := skip r
  if r.rest.isEmpty then pure v else throw (.malformed .extraData r.pos)

end Trazo.Json
