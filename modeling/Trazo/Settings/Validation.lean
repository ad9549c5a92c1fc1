import Trazo.Settings
import Trazo.Settings.Numeral
import Trazo.Value

/-!
From a table of values to settings.

Every field that is present is checked by itself, and all that is wrong is told at once, in the
order of the fields. Only when every field is right are they checked against each other. Keys that
name no field do not matter.
-/

namespace Trazo.Settings

/-! ### Complaints -/

inductive Cause
  | notInteger
  | unparsableInteger
  | integerTooLong
  | fractionPart
  | notFinite
  | tooSmall (least : Nat)
  | tooLarge (greatest : Nat)
  | notOneOf (names : List String)
  | notTable
  | frozen
  | rule (text : String)
  deriving DecidableEq

namespace Cause

def type : Cause → String
  | .notInteger => "int_type"
  | .unparsableInteger => "int_parsing"
  | .integerTooLong => "int_parsing_size"
  | .fractionPart => "int_from_float"
  | .notFinite => "finite_number"
  | .tooSmall _ => "greater_than_equal"
  | .tooLarge _ => "less_than_equal"
  | .notOneOf _ => "literal_error"
  | .notTable => "dict_type"
  | .frozen => "frozen_instance"
  | .rule _ => "value_error"

/-- Names in quotes, with commas, and "or" before the last. -/
def alternatives (names : List String) : String :=
  let shown := names.map fun n => "'" ++ n ++ "'"
  match shown.getLast? with
  | none => ""
  | some last =>
    if shown.length = 1 then last else ", ".intercalate shown.dropLast ++ " or " ++ last

def message : Cause → String
  | .notInteger => "Input should be a valid integer"
  | .unparsableInteger =>
    "Input should be a valid integer, unable to parse string as an integer"
  | .integerTooLong => "Unable to parse input string as an integer, exceeded maximum size"
  | .fractionPart => "Input should be a valid integer, got a number with a fractional part"
  | .notFinite => "Input should be a finite number"
  | .tooSmall n => "Input should be greater than or equal to " ++ toString n
  | .tooLarge n => "Input should be less than or equal to " ++ toString n
  | .notOneOf names => "Input should be " ++ alternatives names
  | .notTable => "Input should be a valid dictionary"
  | .frozen => "Instance is frozen"
  | .rule text => "Value error, " ++ text

end Cause

/-- What is wrong, where, and with which value. -/
structure Complaint where
  place : List String
  cause : Cause
  input : Value

namespace Complaint

/-- A long text by its first and last bytes, 50 or a little less in all, no character cut. -/
def abridged (s : String) : String :=
  if s.utf8ByteSize ≤ 50 then s
  else
    let width (cs : List Char) : Nat := cs.foldl (fun n c => n + c.utf8Size) 0
    let fitting (limit : Nat) (cs : List Char) : List Char :=
      let fits (n : Nat) : Bool := width (cs.take n) ≤ limit
      cs.take (((List.range (cs.length + 1)).takeWhile fits).length - 1)
    String.ofList (fitting 25 s.toList) ++ "..." ++
      String.ofList (fitting 24 s.toList.reverse).reverse

/-- A part of a place. One that holds a point is set apart from the points between the parts. -/
def showPart (part : String) : String :=
  if part.toList.contains '.' then "`" ++ part ++ "`" else part

/-- A complaint on two lines, or on one when it is about all fields together. -/
def display (c : Complaint) : String :=
  (if c.place.isEmpty then "" else ".".intercalate (c.place.map showPart) ++ "\n") ++
    "  " ++ c.cause.message ++ " [type=" ++ c.cause.type ++ ", input_value=" ++
    abridged c.input.literal ++ ", input_type=" ++ c.input.typeName ++ "]"

/-- All complaints, led by their number. -/
def displayAll (cs : List Complaint) : String :=
  let count := toString cs.length ++ " validation error" ++ (if cs.length = 1 then "" else "s") ++
    " for QdrawSettings"
  "\n".intercalate (count :: cs.map display)

end Complaint

/-! ### Single values -/

/-- The integer that a text writes. -/
def integerOfText (s : String) : Except Cause Int :=
  (Numeral.read s).mapError fun
    | .malformed => .unparsableInteger
    | .tooLong => .integerTooLong

/-- The integer of a number without a fraction part, if it fits in 64 bits. -/
def integerOfFloat (x : Binary64) : Except Cause Int :=
  match x with
  | .finite .. =>
    match x.toInt? with
    | none => .error .fractionPart
    | some n => if n.natAbs < Numeral.wordLimit then .ok n else .error .integerTooLong
  | .infinite _ | .nan => .error .notFinite

/-- The integer that a value stands for. -/
def integer : Value → Except Cause Int
  | .int n => .ok n
  | .bool b => .ok (if b then 1 else 0)
  | .text s => integerOfText s
  | .float x => integerOfFloat x
  | .null | .moment _ | .list _ | .table _ => .error .notInteger

/-- An integer between two bounds. -/
def bounded (least : Nat) (greatest : Option Nat) (v : Value) : Except Cause Nat := do
  let n ← integer v
  if n < least then throw (.tooSmall least)
  match greatest with
  | some g => if n > g then throw (.tooLarge g) else pure n.toNat
  | none => pure n.toNat

/-- One of a few named things. -/
def named {α : Type} (all : List α) (name : α → String) : Value → Except Cause α
  | .text s =>
    match all.find? fun a => name a == s with
    | some a => .ok a
    | none => .error (.notOneOf (all.map name))
  | _ => .error (.notOneOf (all.map name))

/-! ### Fields -/

/-- A field of the table, or its default, and what is wrong with it. -/
def field {α : Type} (t : Table) (key : String) (default : α) (read : Value → Except Cause α) :
    α × List Complaint :=
  match t.get? key with
  | none => (default, [])
  | some v =>
    match read v with
    | .ok a => (a, [])
    | .error c => (default, [⟨[key], c, v⟩])

/-- One entry of the table of delays. -/
def delay (key : String) (entry : String × Value) : List (Speed × Int) × List Complaint :=
  let (name, v) := entry
  let speed := named Speed.all Speed.name (.text name)
  let ms := integer v
  let wrongKey := match speed with
    | .ok _ => []
    | .error c => [⟨[key, name, "[key]"], c, .text name⟩]
  let wrongValue := match ms with
    | .ok _ => []
    | .error c => [⟨[key, name], c, v⟩]
  let read := match speed, ms with
    | .ok s, .ok n => [(s, n)]
    | _, _ => []
  (read, wrongKey ++ wrongValue)

def defaultDelays : List (Speed × Int) := Speed.all.map fun s => (s, (({} : Delays).get s : Int))

def delayField (t : Table) (key : String) : List (Speed × Int) × List Complaint :=
  match t.get? key with
  | none => (defaultDelays, [])
  | some (.table es) =>
    let read := es.map (delay key)
    (read.flatMap (·.1), read.flatMap (·.2))
  | some v => ([], [⟨[key], .notTable, v⟩])

/-- The keys of the fields, in order. -/
def fieldNames : List String :=
  ["max_execution_steps", "max_recursion_depth", "max_repeat_count", "max_number_literal",
   "max_nesting_depth", "min_board_size", "max_board_size", "default_speed", "speed_delays_ms",
   "log_level"]

/-! ### All fields together -/

def delayOf (ds : List (Speed × Int)) (s : Speed) : Option Int :=
  (ds.find? fun d => d.1 = s).map (·.2)

/-- The names of the speeds without a delay, in alphabetical order. -/
def missingDelays (ds : List (Speed × Int)) : List String :=
  ([Speed.fast, .instant, .normal, .slow].filter fun s => (delayOf ds s).isNone).map Speed.name

/-- What is wrong with fields that are right by themselves. -/
def inconsistency (minSide maxSide : Nat) (ds : List (Speed × Int)) : Option String :=
  if minSide > maxSide then some "min_board_size must not exceed max_board_size"
  else if !(missingDelays ds).isEmpty then
    some ("speed_delays_ms is missing: " ++ ", ".intercalate (missingDelays ds))
  else if ds.any fun d => d.2 < 0 then some "speed delays must not be negative"
  else none

def assembleDelays (ds : List (Speed × Int)) : Delays :=
  let get (s : Speed) : Nat := ((delayOf ds s).getD 0).toNat
  { instant := get .instant, fast := get .fast, normal := get .normal, slow := get .slow }

/-- The settings that a table of values gives, or all that is wrong with it. -/
def ofTable (t : Table) : Except (List Complaint) Settings :=
  let d : Settings := {}
  let (maxSteps, c1) := field t "max_execution_steps" d.maxSteps (bounded 1 none)
  let (maxDepth, c2) := field t "max_recursion_depth" d.maxDepth (bounded 1 none)
  let (maxRepeat, c3) := field t "max_repeat_count" d.maxRepeat (bounded 0 none)
  let (maxNumber, c4) := field t "max_number_literal" d.maxNumber (bounded 0 none)
  let (maxNesting, c5) := field t "max_nesting_depth" d.maxNesting (bounded 1 (some 150))
  let (minSide, c6) := field t "min_board_size" d.minSide (bounded 1 none)
  let (maxSide, c7) := field t "max_board_size" d.maxSide (bounded 1 none)
  let (speed, c8) := field t "default_speed" d.speed (named Speed.all Speed.name)
  let (ds, c9) := delayField t "speed_delays_ms"
  let (logLevel, c10) := field t "log_level" d.logLevel (named Log.Level.all Log.Level.name)
  let complaints := c1 ++ c2 ++ c3 ++ c4 ++ c5 ++ c6 ++ c7 ++ c8 ++ c9 ++ c10
  if !complaints.isEmpty then .error complaints
  else
    match inconsistency minSide maxSide ds with
    | some text => .error [⟨[], .rule text, .table t⟩]
    | none =>
      .ok
        { maxSteps, maxDepth, maxRepeat, maxNumber, maxNesting, minSide, maxSide, speed, logLevel
          delays := assembleDelays ds }

/-- Settings are never changed once made; an attempt is refused. -/
def assign (key : String) (v : Value) : Complaint := ⟨[key], .frozen, v⟩

end Trazo.Settings
