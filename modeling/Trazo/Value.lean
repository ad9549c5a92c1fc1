import Trazo.Number
import Trazo.Text.Quoted
import Trazo.Value.Moment

/-!
Values of settings files and of other things given from outside: numbers, texts, moments, lists, and
tables that keep the order of their keys.
-/

namespace Trazo

inductive Value
  | null
  | bool (b : Bool)
  | int (n : Int)
  | float (x : Binary64)
  | text (s : String)
  | moment (m : Moment)
  | list (vs : List Value)
  | table (entries : List (String × Value))

instance : Inhabited Value := ⟨.null⟩

namespace Value

mutual

/-- A value as a literal. -/
def literal : Value → String
  | .null => "None"
  | .bool b => if b then "True" else "False"
  | .int n => toString n
  | .float x => x.display
  | .text s => Text.quoted s
  | .moment m => m.literal
  | .list vs => "[" ++ ", ".intercalate (literals vs) ++ "]"
  | .table es => "\x7b" ++ ", ".intercalate (entryLiterals es) ++ "\x7d"

def literals : List Value → List String
  | [] => []
  | v :: vs => v.literal :: literals vs

def entryLiterals : List (String × Value) → List String
  | [] => []
  | (k, v) :: es => (Text.quoted k ++ ": " ++ v.literal) :: entryLiterals es

end

/-- The name of a value's type. -/
def typeName : Value → String
  | .null => "NoneType"
  | .bool _ => "bool"
  | .int _ => "int"
  | .float _ => "float"
  | .text _ => "str"
  | .moment m => m.typeName
  | .list _ => "list"
  | .table _ => "dict"

end Value

/-! ### Tables -/

/-- A table: keys with their values, in order of first appearance, no key twice. -/
abbrev Table := List (String × Value)

namespace Table

def get? (t : Table) (key : String) : Option Value := (t.find? fun e => e.1 == key).map (·.2)

/-- Gives a key a value: in place when the table has the key, else at the end. -/
def insert (t : Table) (key : String) (v : Value) : Table :=
  match t with
  | [] => [(key, v)]
  | e :: r => if e.1 == key then (key, v) :: r else e :: insert r key v

/-- All keys of both tables, with the value of the second where both have one. -/
def update (t u : Table) : Table := u.foldl (fun t e => insert t e.1 e.2) t

def keys (t : Table) : List String := t.map (·.1)

end Table

end Trazo
