import Trazo.CommandLine.Perform

/-!
The program itself: it reads the environment and the files that the command line names, and prints
what comes out.
-/

namespace Trazo

/-- What stands at a path. What cannot be opened counts as absent. -/
def readFile (path : String) : IO Settings.File := do
  try
    let bytes ← IO.FS.readBinFile path
    pure (.bytes bytes.toList)
  catch _ => pure .absent

/-- The variables for the fields of the settings, in capitals or in small letters. -/
def readEnvironment : IO (List (String × String)) := do
  let names := Settings.fieldNames.flatMap fun key =>
    let name := Settings.variableStem ++ key
    [name, name.toUpper]
  let found ← names.mapM fun name => do
    pure ((← IO.getEnv name).map fun value => (name, value))
  pure (found.filterMap id)

/-- The files that a command line names. -/
def namedFiles (args : List String) : List String :=
  match CommandLine.Invocation.ofArguments args with
  | .ok (some i) => i.file :: i.choices.config.toList
  | _ => []

def readWorld (args : List String) : IO CommandLine.World := do
  let files ← (namedFiles args).mapM fun path => do pure (path, ← readFile path)
  pure
    { environment := ← readEnvironment
      file := fun path => ((files.find? fun f => f.1 == path).map (·.2)).getD .absent }

def escapeText : CommandLine.Escape → String
  | .settings f => CommandLine.loadMessage (.settings f)
  | .failure (.diagnostic d) => d.render
  | .failure (.integer f) => f.message
  | .failure (.unwritable _) => Text.Integer.unwritableMessage
  | .failure .noCount => CountFault.missing.message
  | .failure .noEnd => Program.TokenFault.noEndMessage
  | .failure (.unknownStatement kind) => "Unknown statement type: " ++ kind
  | .failure (.grid f) => f.message
  | .failure .endlessPause => Settings.endlessPauseMessage
  | .failure (.raised e) => nomatch e

end Trazo

def main (args : List String) : IO UInt32 := do
  let outcome := Trazo.CommandLine.respond (← Trazo.readWorld args) args
  IO.sleep (UInt32.ofNat outcome.wait)
  IO.print outcome.report.out
  IO.eprint outcome.report.err
  match outcome.ending with
  | .returned code => pure (UInt32.ofNat code)
  | .exit code => pure (UInt32.ofNat code)
  | .escaped e =>
    IO.eprintln (Trazo.escapeText e)
    pure 1
