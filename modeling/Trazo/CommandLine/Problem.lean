import Trazo.Value

/-!
Problems with the way the program is called, as opposed to problems of a drawing program.
-/

namespace Trazo.CommandLine

structure Problem where
  message : String
  code : String
  hint : Option String := none
  context : Table := []

namespace Problem

/-- The code of a wrong value of a flag. -/
def invalidCode : String := "CLI_VALIDATION_ERROR"

/-- The code of a file that is not there or cannot be read. -/
def missingCode : String := "CLI_FILE_NOT_FOUND"

def invalid (message : String) (hint : Option String) : Problem :=
  { message, code := invalidCode, hint }

def missing (message : String) (hint : Option String) : Problem :=
  { message, code := missingCode, hint }

/-- A problem on one line, and a second one for a hint that is not empty. -/
def display (p : Problem) : String :=
  "Error [" ++ p.code ++ "]: " ++ p.message ++
    match p.hint with
    | none => ""
    | some h => if h.isEmpty then "" else "\nHint: " ++ h

end Problem

/-- Any other error, by the name of its class and its text. -/
def displayError (name text : String) : String := "Error: " ++ name ++ ": " ++ text

end Trazo.CommandLine
