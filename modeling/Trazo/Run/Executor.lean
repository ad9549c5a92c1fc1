import Trazo.Run.Machine

/-!
Running a program from its main block to the end, as often as one likes.

An executor keeps the counts of its last run and a request to stop the next one. A request is used
up by the run that it stops.
-/

namespace Trazo.Run

/-- How a run ended. -/
structure Result where
  success : Bool
  steps : Nat
  commands : Nat := 0
  error : Option Diagnostic := none
  deriving DecidableEq, Inhabited

namespace Result

def message (r : Result) : String :=
  match r.error with
  | none => "Execution completed successfully (" ++ toString r.steps ++ " steps)"
  | some d => d.render

def line (r : Result) : Option Int := r.error.bind (·.line)

def cancelled (r : Result) : Bool := (r.error.map (·.kind)) == some .cancelled

end Result

structure Executor where
  program : Program
  table : List Procedure
  speed : Speed
  settings : Settings
  tally : Tally
  cancelled : Bool := false

namespace Executor

variable {σ ε : Type}

def freshTally (s : Settings) : Tally := { maxSteps := s.maxSteps, maxDepth := s.maxDepth }

/-- An executor for a program with a main block and distinct procedure names. -/
def create (program : Program) (speed : Value) (s : Settings) :
    Except (Failure ε) (Executor × List Log.Record) := do
  if program.main.isNone then
    throw (.diagnostic (Program.missingMain (some Program.missingMainHint)))
  let (speed, logs) ← (Speed.resolve s.speed speed).mapError .integer
  let table ← (Procedure.table program.procedures).mapError fun d => .diagnostic d.diagnostic
  pure
    ({ program := program, table := table, speed := speed, settings := s
       tally := freshTally s }, logs)

/-- The pause after each command, in seconds. -/
def pause (e : Executor) : Binary64 := e.settings.pause e.speed

/-- What happens after a command: the observer looks, and unless it raises, the run pauses. No run
gets over a pause that is longer than any number of seconds. -/
def paced (e : Executor) (observe : Observer σ ε) : Observer σ ε := fun st board =>
  let r := observe st board
  { r with raised := r.raised.or (if e.pause = .infinite false then some .endlessPause else none) }

/-- Asks for the next run, or the present one, to stop. -/
def cancel (e : Executor) : Executor := { e with cancelled := true }

/-- What is left after a run. -/
structure Ended (σ ε : Type) where
  /-- The number of steps, or what ended the run before the end of the program. -/
  result : Except (Failure ε) Nat
  executor : Executor
  board : Board
  observer : σ
  pauses : Nat := 0
  logs : List Log.Record := []

def logger : String := "qdraw.runtime.executor"

def startRecord (e : Executor) (board : Board) : Log.Record where
  level := .debug
  logger := logger
  text := "Starting run: " ++ toString e.table.length ++ " procedure(s), speed=" ++
    e.speed.name ++ ", board=" ++ board.display

/-- What is recorded at the end of a run. Failures that are no diagnostics are left to others. -/
def endRecords (t : Tally) : Option (Failure ε) → List Log.Record
  | none =>
    [⟨.info, logger, "Run finished: " ++ toString t.steps ++ " steps, " ++ toString t.commands ++
      " commands"⟩]
  | some (.diagnostic d) =>
    let steps := toString t.steps ++ " steps"
    if d.kind = .cancelled then [⟨.info, logger, "Run cancelled after " ++ steps⟩]
    else [⟨.info, logger, "Run failed after " ++ steps ++ ": " ++ d.code⟩]
  | some _ => []

def code (e : Executor) (observe : Observer σ ε) (inert : Block → Bool := blockIsInert) :
    Code σ ε :=
  { table := e.table, maxRepeat := e.settings.maxRepeat, observe := observe, inert := inert }

/-- The machine at the start of a run. -/
def machine (e : Executor) (main : MainBlock) (board : Board) (st : σ) : Machine σ :=
  { frames := [{ body := main.body, todo := main.body }]
    board := board
    tally := freshTally e.settings
    cancelled := e.cancelled
    observer := st }

/-- Runs the main block to its end. Loops over the blocks in `inert` are not entered. -/
def run (e : Executor) (observe : Observer σ ε) (st : σ) (board : Board)
    (inert : Block → Bool := blockIsInert) : Ended σ ε :=
  match e.program.main with
  | none =>
    { result := .error (.diagnostic (Program.missingMain none))
      executor := e, board := board, observer := st }
  | some main =>
    let (failure, m) := (e.machine main board st).run (e.code observe inert)
    { result := match failure with
        | none => .ok m.tally.steps
        | some f => .error f
      executor := { e with tally := m.unwind, cancelled := false }
      board := m.board
      observer := m.observer
      pauses := m.pauses
      logs := e.startRecord board :: endRecords m.tally failure }

/-- The result of a run. A diagnostic is a result too; any other failure is not. -/
def Ended.outcome (r : Ended σ ε) : Except (Failure ε) Result :=
  let t := r.executor.tally
  match r.result with
  | .ok steps => .ok { success := true, steps := steps, commands := t.commands }
  | .error (.diagnostic d) =>
    .ok { success := false, steps := t.steps, commands := t.commands, error := some d }
  | .error f => .error f

end Executor

end Trazo.Run
