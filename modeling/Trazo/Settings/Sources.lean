import Trazo.Settings.Validation
import Trazo.Text.Utf8
import Trazo.Value.Json
import Trazo.Value.Toml

/-!
Where settings come from: the environment, a file, and values given directly.

What is given directly wins over the file, and the file over the environment. Tables from both sides
are merged key by key. How the keys of what is given name the fields is the library's business, and
a parameter here.
-/

namespace Trazo.Settings

/-! ### The environment -/

/-- The names of environment variables start with this, in any case. -/
def variableStem : String := "qdraw_"

def fold (s : String) : String := s.map Char.toLower

/-- A variable that holds no JSON where JSON is due. -/
structure EnvironmentFault where
  key : String
  deriving DecidableEq

def EnvironmentFault.message (f : EnvironmentFault) : String :=
  "error parsing value for field \"" ++ f.key ++ "\" from source \"EnvSettingsSource\""

/-- The last variable for a field. -/
def textOf? (vars : List (String × String)) (key : String) : Option String :=
  (vars.reverse.find? fun v => fold v.1 == variableStem ++ key).map (·.2)

/-- The value of a field in the environment. The table of delays is written in JSON, where `null`
leaves the field unset. -/
def environmentValue (key text : String) : Except EnvironmentFault (Option Value) :=
  if key = "speed_delays_ms" then
    match Json.read text.toList with
    | .ok .null => .ok none
    | .ok v => .ok (some v)
    | .error _ => .error ⟨key⟩
  else .ok (some (.text text))

/-- The fields that the environment sets. -/
def environment (vars : List (String × String)) : Except EnvironmentFault Table :=
  fieldNames.foldlM (fun t key =>
    match textOf? vars key with
    | none => .ok t
    | some text =>
      (environmentValue key text).map fun v => t ++ v.toList.map fun v => (key, v)) []

/-! ### Merging -/

mutual

/-- A value replaced by another; two tables are merged. -/
def mergeValue (old : Value) : Value → Value
  | .table new =>
    match old with
    | .table t => .table (mergeTables t new)
    | _ => .table new
  | v => v

/-- A table with the entries of another merged into it. -/
def mergeTables (t : Table) : List (String × Value) → Table
  | [] => t
  | (k, v) :: rest =>
    let merged := match Table.get? t k with
      | none => v
      | some old => mergeValue old v
    mergeTables (Table.insert t k merged) rest

end

/-! ### Keys of what is given -/

theorem fold_eq {s t : String} (h : s.toList.map Char.toLower = t.toList) : fold s = t := by
  rwa [← String.toList_inj, fold, String.toList_map]

theorem fold_of_mem_fieldNames {field : String} (h : field ∈ fieldNames) : fold field = field := by
  have hall : ∀ k ∈ fieldNames, k.toList.map Char.toLower = k.toList := by decide
  exact fold_eq (hall field h)

/-- How keys name fields, and which value is chosen when several keys name the same field. A field
is named by its own name, no key names two fields, and a value is chosen if there is one. -/
structure Keywords where
  names : String → String → Bool
  choose : Table → Option Value
  names_self : ∀ field ∈ fieldNames, names field field = true
  eq_of_names : ∀ key, ∀ f ∈ fieldNames, ∀ g ∈ fieldNames,
    names key f = true → names key g = true → f = g
  mem_of_choose : ∀ t v, choose t = some v → ∃ key, (key, v) ∈ t
  isSome_choose : ∀ t, t ≠ [] → (choose t).isSome

namespace Keywords

/-- Keys name fields in any case, and the last value is chosen. -/
def folded : Keywords where
  names key field := fold key == field
  choose t := t.getLast?.map (·.2)
  names_self field h := by simp [fold_of_mem_fieldNames h]
  eq_of_names := by simp_all
  mem_of_choose t v h := by
    obtain ⟨e, he, rfl⟩ := Option.map_eq_some_iff.mp h
    exact ⟨e.1, List.mem_of_getLast? he⟩
  isSome_choose t h := by simp [List.getLast?_eq_some_getLast h]

variable (K : Keywords)

/-- The value that is given for a field. -/
def value? (given : Table) (field : String) : Option Value :=
  K.choose (given.filter fun e => K.names e.1 field)

/-- Given values under the names of their fields, in the order of the fields, then the rest. -/
def normalized (given : Table) : Table :=
  (fieldNames.filterMap fun field => (K.value? given field).map fun v => (field, v)) ++
    given.filter fun e => !fieldNames.any fun field => K.names e.1 field

end Keywords

/-- Why there are no settings. -/
inductive Fault
  | invalid (complaints : List Complaint)
  | environment (f : EnvironmentFault)

/-- The settings from the environment and from values given directly. -/
def make (K : Keywords) (vars : List (String × String)) (given : Table) :
    Except Fault Settings := do
  let env ← (environment vars).mapError .environment
  (ofTable (mergeTables env (K.normalized given))).mapError .invalid

/-! ### Files -/

/-- A path in its plain form: no empty and no `.` parts. -/
def plainPath (path : String) : String :=
  let parts := (path.splitOn "/").filter fun p => p ≠ "" && p ≠ "."
  let body := "/".intercalate parts
  if path.startsWith "/" then "/" ++ body else if parts.isEmpty then "." else body

/-- The end of a file name from its last point on; a point at either end of the name is none. -/
def suffix (path : String) : String :=
  let name := ((plainPath path).splitOn "/").getLast?.getD ""
  let after := (name.toList.reverse.takeWhile (· ≠ '.')).reverse
  let before := name.length - after.length
  if after.isEmpty || before ≤ 1 then "" else "." ++ String.ofList after

/-- What stands at a path. -/
inductive File
  | bytes (b : List UInt8)
  | directory
  | absent

/-- Why a settings file cannot be used. -/
inductive FileFault
  | absent (path : String)
  | directory (path : String)
  | encoding (f : Text.Utf8.Fault)
  | json (source : List Char) (f : Json.Fault)
  | toml (source : List Char) (f : Toml.Fault)
  | notTable (path : String)

def FileFault.message : FileFault → String
  | .absent p => "[Errno 2] No such file or directory: " ++ Text.quoted p
  | .directory p => "[Errno 21] Is a directory: " ++ Text.quoted p
  | .encoding f => f.message
  | .json source f => f.message source
  | .toml source f => f.message source
  | .notTable p => "Config file " ++ p ++ " must contain a table of settings"

/-- The value that a settings file holds. In TOML, the table `qdraw` if there is one. -/
def fileValue (path : String) (source : List Char) : Except FileFault Value :=
  if suffix path = ".json" then (Json.read source).mapError (.json source)
  else do
    let t ← (Toml.read source).mapError (.toml source)
    pure ((t.get? "qdraw").getD (.table t))

/-- The table of settings in a file. -/
def fileTable (path : String) (file : File) : Except FileFault Table := do
  let shown := plainPath path
  match file with
  | .absent => throw (.absent shown)
  | .directory => throw (.directory shown)
  | .bytes b =>
    let source ← (Text.Utf8.text b).mapError .encoding
    match ← fileValue path source with
    | .table t => pure t
    | _ => throw (.notTable shown)

/-- Why settings cannot be loaded. -/
inductive LoadFault
  | file (f : FileFault)
  | settings (f : Fault)

/-- Settings from the environment, a file if one is named, and values given directly. -/
def load (K : Keywords) (vars : List (String × String)) (file : Option (String × File))
    (overrides : Table) : Except LoadFault Settings := do
  let base ← match file with
    | none => pure []
    | some (path, file) => (fileTable path file).mapError .file
  (make K vars (Table.update base overrides)).mapError .settings

end Trazo.Settings
