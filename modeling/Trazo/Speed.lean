import Trazo.Log
import Trazo.Text.Integer
import Trazo.Value

/-!
How long a run pauses after each command, chosen by name or by number.
-/

namespace Trazo

inductive Speed
  | instant | fast | normal | slow
  deriving DecidableEq, Inhabited

namespace Speed

def all : List Speed := [.instant, .fast, .normal, .slow]

def name : Speed → String
  | .instant => "instant"
  | .fast => "fast"
  | .normal => "normal"
  | .slow => "slow"

def ofName? (s : String) : Option Speed := all.find? fun v => v.name == s

/-- The numbers that select a speed. -/
def ofCode? : Int → Option Speed
  | 0 => some .instant
  | 1 => some .slow
  | 3 => some .normal
  | 7 => some .fast
  | _ => none

/-- The speed that a text names, or whose number it is. Blanks around it and the case of its
letters do not matter; the names are ASCII, and no other letter has one of theirs as its small
form. A text of digits that is no numeral is an error. -/
def ofText (s : String) : Except Text.Integer.Fault (Option Speed) :=
  let t := String.ofList ((Text.trim s.toList).map Char.toLower)
  match ofName? t with
  | some v => .ok (some v)
  | none =>
    if !t.isEmpty && t.toList.all Text.isDigitLike then (Text.Integer.read t).map ofCode?
    else .ok none

/-- What is said of a selector that selects nothing. -/
def unrecognized (v : Value) : Log.Record where
  level := .warning
  logger := "qdraw.runtime.executor"
  text := "Unrecognized speed " ++ v.literal ++ ", using " ++ Speed.normal.name

/-- The speed that a selector selects, and the warning when it selects none. -/
def resolve (default : Speed) (v : Value) :
    Except Text.Integer.Fault (Speed × List Log.Record) :=
  let chosen : Except Text.Integer.Fault (Option Speed) := match v with
    | .null => .ok (some default)
    | .int n => .ok (ofCode? n)
    | .text s => ofText s
    | _ => .ok none
  chosen.map fun
    | some s => (s, [])
    | none => (.normal, [unrecognized v])

end Speed

end Trazo
