import Trazo.Text.Quoted

/-!
Bytes and characters: reading UTF-8, and the line ends of text files.
-/

namespace Trazo.Text.Utf8

/-- Why bytes are not read. -/
inductive Cause
  | start | continuation | truncated
  deriving DecidableEq

/-- A cause and the bytes that it lies with: the first of them, its place, and their number. -/
structure Fault where
  cause : Cause
  byte : UInt8
  pos : Nat
  length : Nat
  deriving DecidableEq

def Cause.message : Cause → String
  | .start => "invalid start byte"
  | .continuation => "invalid continuation byte"
  | .truncated => "unexpected end of data"

def Fault.message (f : Fault) : String :=
  "'utf-8' codec can't decode " ++
    (if f.length = 1 then
      "byte 0x" ++ hex 2 f.byte.toNat ++ " in position " ++ toString f.pos
    else
      "bytes in position " ++ toString f.pos ++ "-" ++ toString (f.pos + f.length - 1)) ++
    ": " ++ f.cause.message

/-- The number of bytes of a character, by its first byte. -/
def width? (b : UInt8) : Option Nat :=
  if b < 0x80 then some 1
  else if b < 0xc2 then none
  else if b < 0xe0 then some 2
  else if b < 0xf0 then some 3
  else if b < 0xf5 then some 4
  else none

/-- Whether a byte may follow the first. The shortest form is asked for, surrogates are refused, and
so is all beyond the last character. -/
def isSecond (first b : UInt8) : Bool :=
  let low := if first = 0xe0 then 0xa0 else if first = 0xf0 then 0x90 else 0x80
  let high := if first = 0xed then 0x9f else if first = 0xf4 then 0x8f else 0xbf
  low ≤ b && b ≤ high

def isContinuation (b : UInt8) : Bool := 0x80 ≤ b && b ≤ 0xbf

/-- How many of the bytes after the first are as they should be. -/
def goodLength (first : UInt8) : List UInt8 → Nat
  | [] => 0
  | b :: r => if isSecond first b then 1 + (r.takeWhile isContinuation).length else 0

/-- The character of a complete sequence. -/
def assemble (first : UInt8) (rest : List UInt8) : Char :=
  let lead := match rest.length with
    | 0 => first.toNat
    | 1 => first.toNat % 0x20
    | 2 => first.toNat % 0x10
    | _ => first.toNat % 0x08
  Char.ofNat (rest.foldl (fun n b => n * 0x40 + b.toNat % 0x40) lead)

def decodeFrom (pos : Nat) (done : List Char) (bytes : List UInt8) : Except Fault (List Char) :=
  match bytes with
  | [] => .ok done.reverse
  | b :: r =>
    match width? b with
    | none => .error ⟨.start, b, pos, 1⟩
    | some w =>
      let following := r.take (w - 1)
      let good := goodLength b following
      if good = w - 1 then
        decodeFrom (pos + w) (assemble b following :: done) (r.drop (w - 1))
      else if good = following.length then .error ⟨.truncated, b, pos, good + 1⟩
      else .error ⟨.continuation, b, pos, good + 1⟩
termination_by bytes.length
decreasing_by
  rw [List.length_drop, List.length_cons]
  omega

/-- The characters that bytes write. -/
def decode (bytes : List UInt8) : Except Fault (List Char) := decodeFrom 0 [] bytes

/-- Every line end as a line feed: a carriage return counts as one, and so do both together. -/
def unixLines : List Char → List Char
  | '\r' :: '\n' :: r => '\n' :: unixLines r
  | '\r' :: r => '\n' :: unixLines r
  | c :: r => c :: unixLines r
  | [] => []

/-- The text of a file. -/
def text (bytes : List UInt8) : Except Fault (List Char) := (decode bytes).map unixLines

end Trazo.Text.Utf8
