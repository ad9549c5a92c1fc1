import Trazo.Value

/-!
Writing values in JSON, on one line of plain ASCII.
-/

namespace Trazo.Json

def unit (n : Nat) : String := "\\u" ++ Text.hex 4 n

/-- One character inside a string. What is not plain ASCII is written by its code, in two halves
beyond the first 65536. -/
def escaped (c : Char) : String :=
  let n := c.toNat
  if c = '"' then "\\\""
  else if c = '\\' then "\\\\"
  else if 0x20 ≤ n && n < 0x7f then String.ofList [c]
  else if n < 0x10000 then unit n
  else
    let m := n - 0x10000
    unit (0xd800 + m / 0x400) ++ unit (0xdc00 + m % 0x400)

def writeText (s : String) : String :=
  "\"" ++ String.join (s.toList.map escaped) ++ "\""

mutual

def write : Value → String
  | .null => "null"
  | .bool b => if b then "true" else "false"
  | .int n => toString n
  | .float x => x.display
  | .text s => writeText s
  | .moment m => writeText m.literal
  | .list vs => "[" ++ ",".intercalate (writeAll vs) ++ "]"
  | .table es => "\x7b" ++ ",".intercalate (writeEntries es) ++ "\x7d"

def writeAll : List Value → List String
  | [] => []
  | v :: vs => write v :: writeAll vs

def writeEntries : List (String × Value) → List String
  | [] => []
  | (k, v) :: es => (writeText k ++ ":" ++ write v) :: writeEntries es

end

end Trazo.Json
