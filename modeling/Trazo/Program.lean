import Trazo.Diagnostic
import Trazo.Vocabulary

/-!
Programs: a main block and named procedures, each a block of statements. Every part knows the
line on which its first word stands.
-/

namespace Trazo

/-- A statement. Tools may build programs with statements of their own; such a `foreign` one can be
counted and shown, but not run. -/
inductive Statement
  | command (c : Command) (line : Int)
  | call (name : String) (line : Int)
  | loop (count : Int) (body : List Statement) (line : Int)
  | branch (sensor : Sensor) (yes : List Statement) (no : Option (List Statement)) (line : Int)
  | foreign (kind : String) (line : Int)

abbrev Block := List Statement

instance : Inhabited Statement := ⟨.command .clear 0⟩

def Statement.line : Statement → Int
  | .command _ line => line
  | .call _ line => line
  | .loop _ _ line => line
  | .branch _ _ _ line => line
  | .foreign _ line => line

mutual

/-- The number of statements in a statement, itself included. -/
def Statement.size : Statement → Nat
  | .loop _ body _ => 1 + blockSize body
  | .branch _ yes none _ => 1 + blockSize yes
  | .branch _ yes (some no) _ => 1 + blockSize yes + blockSize no
  | .command .. | .call .. | .foreign .. => 1

/-- The number of statements in a block, nested ones included. -/
def blockSize : Block → Nat
  | [] => 0
  | s :: r => s.size + blockSize r

end

mutual

/-- Whether a statement is a loop that holds nothing but such loops. -/
def Statement.isInert : Statement → Bool
  | .loop _ body _ => blockIsInert body
  | .command .. | .call .. | .branch .. | .foreign .. => false

/-- Whether running a block would run no command, call or condition, however its loops count. -/
def blockIsInert : Block → Bool
  | [] => true
  | s :: r => s.isInert && blockIsInert r

end

structure MainBlock where
  body : Block
  line : Int
  deriving Inhabited

structure Procedure where
  name : String
  body : Block
  line : Int
  deriving Inhabited

structure Program where
  main : Option MainBlock := none
  procedures : List Procedure := []
  deriving Inhabited

def Program.names (p : Program) : List String := p.procedures.map (·.name)

/-! ### Names are declared once -/

/-- A procedure whose name an earlier one has. -/
structure DuplicateProcedure where
  procedure : Procedure
  first : Procedure

def DuplicateProcedure.diagnostic (d : DuplicateProcedure) : Diagnostic where
  kind := .duplicateProcedure (some d.procedure.name) (some d.first.line)
  message := "Procedure '" ++ d.procedure.name ++ "' is already defined"
  line := some d.procedure.line
  hint := some "Each procedure needs a unique name. Rename one of the two procedures."

namespace Procedure

def find? (table : List Procedure) (name : String) : Option Procedure :=
  table.find? fun p => p.name == name

/-- Adds procedures to a table one by one and stops at a name that it already has. -/
def tableFrom (table : List Procedure) :
    List Procedure → Except DuplicateProcedure (List Procedure)
  | [] => .ok table
  | p :: rest =>
    match find? table p.name with
    | some first => .error ⟨p, first⟩
    | none => tableFrom (table ++ [p]) rest

/-- The table of procedures with distinct names, in order of declaration. -/
def table (ps : List Procedure) : Except DuplicateProcedure (List Procedure) := tableFrom [] ps

end Procedure

/-! ### A short account of a program -/

namespace Program

def missingMainHint : String :=
  "Every Qdraw file needs a main block. Example: programa \x7b MoverArriba \x7d"

/-- A program that cannot be run because nothing says where it starts. -/
def missingMain (hint : Option String) : Diagnostic where
  kind := .grammatical ["'programa'"] none
  message := "Missing 'programa' block"
  hint := hint

/-- The lines that describe a program: the size of its main block, then its procedures. -/
def summary (p : Program) : List String :=
  match p.main with
  | none => ["No 'programa' block."]
  | some m =>
    ("programa: " ++ toString (blockSize m.body) ++ " statement(s), line " ++ toString m.line) ::
      if p.procedures.isEmpty then ["No procedures defined."]
      else
        ("Procedures (" ++ toString p.procedures.length ++ "):") ::
          p.procedures.map fun q =>
            "  - " ++ q.name ++ "() line " ++ toString q.line ++ ", " ++
              toString (blockSize q.body) ++ " statement(s)"

end Program

end Trazo
