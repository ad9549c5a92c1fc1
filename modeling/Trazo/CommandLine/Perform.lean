import Trazo.CommandLine.Invocation
import Trazo.CommandLine.Problem
import Trazo.Log.Sink
import Trazo.Report
import Trazo.Session
import Trazo.Settings.Sources

/-!
Carrying out a command line: what is printed, and how the program ends.

All that is read from outside is given: the words of the line, the variables of the environment,
and what stands at each path. So is how the keys of a settings file name the settings.
-/

namespace Trazo.CommandLine

/-- What is around the program. -/
structure World where
  environment : List (String × String) := []
  file : String → Settings.File := fun _ => .absent
  keywords : Settings.Keywords := .folded

/-- An error that the program does not handle. -/
inductive Escape
  | settings (f : Settings.Fault)
  | failure (f : Failure Empty)

/-- Why a verb is not carried out to its end. -/
inductive Trouble
  | problem (p : Problem)
  | escape (e : Escape)

/-- How the program ends: it comes back with a code, leaves at once with one, or breaks off. -/
inductive Ending
  | returned (code : Nat)
  | exit (code : Nat)
  | escaped (e : Escape)

structure Outcome where
  report : Report := {}
  ending : Ending
  /-- The pauses of the run in all, in milliseconds. -/
  wait : Nat := 0

/-! ### What is read first -/

/-- The text that says what is wrong with a settings file. -/
def loadMessage : Settings.LoadFault → String
  | .file f => f.message
  | .settings (.invalid cs) => Settings.Complaint.displayAll cs
  | .settings (.environment f) => f.message

/-- The settings from the file that is named, or else from the environment alone. -/
def settings (w : World) (config : Option String) : Except Trouble Settings :=
  match config.filter fun path => !path.isEmpty with
  | none => (Settings.make w.keywords w.environment []).mapError fun f => .escape (.settings f)
  | some path =>
    match w.file path with
    | .bytes b =>
      (Settings.load w.keywords w.environment (some (path, .bytes b)) []).mapError fun f =>
        .problem (.invalid ("Invalid config file " ++ path) (some (loadMessage f)))
    | .directory | .absent => .error (.problem (.missing ("Config file not found: " ++ path) none))

def missingSourceHint : String :=
  "Pass the path to a Qdraw program, for example: qdraw run drawing.qd"

def source (w : World) (path : String) : Except Trouble String :=
  match w.file path with
  | .bytes b =>
    match Text.Utf8.text b with
    | .ok cs => .ok (String.ofList cs)
    | .error f => .error (.problem (.missing ("Cannot read " ++ path ++ ": " ++ f.message) none))
  | .directory | .absent =>
    .error (.problem (.missing ("Source file not found: " ++ path) (some missingSourceHint)))

/-- A position written as two integers with a comma between them. -/
def position (value : String) : Except Problem Position :=
  let refused (hint : String) : Problem :=
    .invalid ("Invalid start position '" ++ value ++ "'") (some hint)
  match value.splitOn "," with
  | [x, y] =>
    match Text.Integer.read x, Text.Integer.read y with
    | .ok x, .ok y => .ok ⟨x, y⟩
    | _, _ =>
      .error (refused "Both coordinates must be whole numbers, for example --start 2,3")
  | _ =>
    .error (refused
      "Use X,Y with the origin at the bottom-left cell, for example --start 0,0")

/-! ### The verbs -/

/-- What a board refuses is a problem. Its other failures escape, and so does a refusal that cannot
be written. -/
def ofBoardFailure (f : BoardFailure) : Trouble :=
  match Failure.ofBoardFailure f with
  | .diagnostic d => .problem (.invalid d.render none)
  | f => .escape (.failure f)

/-- The board for a run, the head where it is wanted. -/
def board (c : Choices) (s : Settings) : Except Trouble Board := do
  let b ← (Board.create c.width c.height s).mapError ofBoardFailure
  match c.start.filter fun value => !value.isEmpty with
  | none => pure b
  | some value =>
    let p ← (position value).mapError .problem
    (b.teleport p).mapError fun f => ofBoardFailure (.refused f)

def runRecord (file : String) (b : Board) : Log.Record :=
  ⟨.debug, "qdraw.cli.commands.run", "Running " ++ file ++ " on " ++ b.display⟩

/-- Runs a program on a fresh board, and draws the board at the end. -/
def run (i : Invocation) (s : Settings) (sink : Log.Sink) (text : String) :
    Except Trouble Outcome := do
  let b ← board i.choices s
  let r := Session.run { board := b, settings := s } text (.text i.choices.speed.name)
    (Session.Observer.silent Unit Empty) ()
  let logged : Report :=
    { err := String.join ((sink.lines (runRecord i.file b :: r.logs)).map (· ++ "\n")) }
  let wait := r.pauses * s.delays.get i.choices.speed
  match r.result with
  | .error f => pure { report := logged, ending := .escaped (.failure f), wait }
  | .ok result =>
    let report := logged ++ Report.result result
    match r.session.board.draw with
    | .error f => pure { report, ending := .escaped (.failure (.grid f)), wait }
    | .ok drawing =>
      pure
        { report := report ++ Report.line drawing
          ending := .returned (if result.success then 0 else 1)
          wait }

/-- Says whether a program compiles, and what it consists of. -/
def check (i : Invocation) (s : Settings) (text : String) : Except Trouble Outcome :=
  match Session.compile s text with
  | .ok program =>
    .ok
      { report := Report.success (i.file ++ " is a valid Qdraw program") ++ Report.summary program
        ending := .returned 0 }
  | .error (.diagnostic d) => .ok { report := Report.failure d.render, ending := .returned 1 }
  | .error f => .error (.escape (.failure f))

/-- Carries out an invocation. -/
def perform (w : World) (i : Invocation) : Except Trouble Outcome := do
  let s ← settings w i.choices.config
  let sink : Log.Sink :=
    { threshold := ((i.choices.logLevel.getD s.logLevel).rank : Nat), attached := true }
  let text ← source w i.file
  match i.verb with
  | .run => run i s sink text
  | .check => check i s text

/-! ### Whole command lines -/

private def lines (ls : List String) : String := String.join (ls.map (· ++ "\n"))

def ofStop : Stop → Outcome
  | .help s =>
    { report := { out := lines (s.usageLines ++ s.helpLines) }, ending := .exit 0 }
  | .version => { report := { out := lines [versionLine] }, ending := .exit 0 }
  | .misuse s m =>
    { report := { err := lines (s.usageLines ++ [s.program ++ ": error: " ++ m.message]) }
      ending := .exit 2 }

def ofTrouble : Trouble → Outcome
  | .problem p => { report := Report.errLine p.display, ending := .exit 1 }
  | .escape e => { ending := .escaped e }

/-- What a command line does. Without a verb there is nothing to do, and the help is printed. -/
def respond (w : World) (args : List String) : Outcome :=
  match Invocation.ofArguments args with
  | .error stop => ofStop stop
  | .ok none => { ofStop (.help .top) with ending := .returned 1 }
  | .ok (some i) =>
    match perform w i with
    | .error t => ofTrouble t
    | .ok o => o

end Trazo.CommandLine
