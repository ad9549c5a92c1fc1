import Trazo.Text.Integer

/-!
Diagnostics: what is told to the author of a program.

A diagnostic has a headline with the line it belongs to, further lines that depend on its kind,
and a hint. The line stands at the start of the text, so that it can be read back.
-/

namespace Trazo

namespace Diagnostic

inductive Kind
  | general
  | lexical
  | grammatical (expected : List String) (found : Option String)
  | duplicateProcedure (name : Option String) (firstLine : Option Int)
  | board
  | boardState
  | runtime
  | boundary (origin : Option (Int × Int)) (direction : Option String)
  | unknownProcedure (name : Option String) (available : List String)
  | recursionLimit (limit : Option Int) (callStack : List String)
  | stepLimit (limit : Option Int)
  | repeatLimit (count limit : Option Int)
  | cancelled
  deriving DecidableEq, Inhabited

namespace Kind

/-- The code that a diagnostic of this kind carries unless another is given. -/
def code : Kind → String
  | .general => "QDRAW_ERROR"
  | .lexical => "LEX_ERROR"
  | .grammatical .. => "SYNTAX_ERROR"
  | .duplicateProcedure .. => "DUPLICATE_PROCEDURE"
  | .board => "BOARD_ERROR"
  | .boardState => "BOARD_STATE_ERROR"
  | .runtime => "RUNTIME_ERROR"
  | .boundary .. => "BOOM"
  | .unknownProcedure .. => "UNKNOWN_PROCEDURE"
  | .recursionLimit .. => "RECURSION_LIMIT"
  | .stepLimit _ => "STEP_LIMIT"
  | .repeatLimit .. => "REPEAT_LIMIT"
  | .cancelled => "CANCELLED"

/-- The wider kind that this kind is a case of. -/
def wider? : Kind → Option Kind
  | .general => none
  | .boardState => some .board
  | .boundary .. | .unknownProcedure .. | .recursionLimit .. | .stepLimit _ | .repeatLimit .. =>
    some .runtime
  | _ => some .general

/-- A kind with all the wider ones, the narrowest first. No kind has more than three. -/
def chain (k : Kind) : List Kind :=
  let second := k.wider?
  let third := second.bind wider?
  k :: (second.toList ++ third.toList)

end Kind

end Diagnostic

structure Diagnostic where
  kind : Diagnostic.Kind
  message : String
  line : Option Int := none
  column : Option Int := none
  code : String := kind.code
  hint : Option String := none
  deriving DecidableEq, Inhabited

namespace Diagnostic

/-- The lines between the headline and the hint. -/
def details (d : Diagnostic) : List String :=
  match d.kind with
  | .grammatical expected found =>
    (match expected with
      | [] => []
      | [e] => ["Expected: " ++ e]
      | es => ["Expected one of: " ++ ", ".intercalate es]) ++
    (match found with
      | none => []
      | some f => ["Found: '" ++ f ++ "'"])
  | .duplicateProcedure _ (some line) => ["First definition: line " ++ toString line]
  | .unknownProcedure name available =>
    [if available.isEmpty then "No procedures are defined."
      else "Available procedures: " ++ ", ".intercalate available,
     "Make sure that:",
     "  1. the procedure is declared with 'procedimiento'",
     "  2. the name is spelled exactly the same (case matters)",
     "  3. it is called with parentheses: " ++ name.getD "None" ++ "()"]
  | .recursionLimit _ stack => ["Call stack: " ++ " -> ".intercalate stack]
  | _ => []

def headline (d : Diagnostic) : String :=
  match d.line with
  | some n => "Line " ++ toString n ++ ": " ++ d.message
  | none => d.message

/-- The hint as a line of its own. An empty hint is none. -/
def hintLines (d : Diagnostic) : List String :=
  match d.hint with
  | none => []
  | some h => if h.isEmpty then [] else ["Hint: " ++ h]

/-- The whole text of a diagnostic. -/
def render (d : Diagnostic) : String :=
  "\n  ".intercalate (d.headline :: (d.details ++ d.hintLines))

/-- The line number that a rendered diagnostic starts with. -/
def lineOf (text : String) : Except Text.Integer.Fault (Option Int) :=
  let mark := "Line ".toList
  if mark.isPrefixOf text.toList then
    match (text.toList.drop mark.length).takeWhile fun c => (Text.digit? c).isSome with
    | [] => .ok none
    | ds => (Text.Integer.read (String.ofList ds)).map some
  else .ok none

end Diagnostic

end Trazo
