import Trazo.Run.Executor

/-!
A session: one board, and the programs that are compiled and run on it.

The session takes the board through its phases, keeps how it looked before and after the last run,
and can put either look back.
-/

namespace Trazo

/-- What a session remembers of its runs. -/
structure Session.Memory where
  /-- Whether a program has ever been started. -/
  started : Bool := false
  initial : Option Snapshot := none
  final : Option Snapshot := none
  last : Option Run.Result := none
  startHead : Option Position := none
  deriving DecidableEq, Inhabited

structure Session where
  board : Board
  settings : Settings
  memory : Session.Memory := {}

namespace Session

variable {σ ε : Type}

def running (s : Session) : Bool := s.board.phase = .running

/-- A program with distinct procedure names, from its source. -/
def compile (s : Settings) (source : String) : Except (Failure ε) Program := do
  let program ← (Program.ofSource source s.maxNumber s.maxNesting).mapError
    Program.SourceFault.failure
  let _ ← (Procedure.table program.procedures).mapError fun d => .diagnostic d.diagnostic
  pure program

/-- Whether there is a run to stop. -/
def canCancel (s : Session) : Bool := s.memory.started && s.running

/-- Puts a snapshot back on the board, unless there is none or a run is going on. -/
def show? (s : Session) (look : Option Snapshot) : Except BoardFault (Bool × Session) :=
  match look with
  | none => .ok (false, s)
  | some snapshot =>
    if s.running then .ok (false, s)
    else do
      let board ← s.board.restore snapshot
      pure (true, { s with board := board })

/-- The board as it was before the last run. -/
def showInitial (s : Session) : Except BoardFault (Bool × Session) := s.show? s.memory.initial

/-- The board as the last successful run left it. -/
def showFinal (s : Session) : Except BoardFault (Bool × Session) := s.show? s.memory.final

/-- Clears the board, puts the head where the last run started, and forgets the run. -/
def reset (s : Session) : Except BoardFailure Session := do
  let board ← s.board.reset.mapError .grid
  let board ← match s.memory.startHead with
    | none => pure board
    | some p => if board.inBounds p then (board.teleport p).mapError .refused else pure board
  pure { s with
    board := board
    memory := { s.memory with initial := none, final := none, last := none } }

/-! ### Runs -/

/-- What an observer does after a command; it may work on the session itself. -/
structure Reaction (σ ε : Type) where
  state : σ
  session : Session
  cancels : Bool := false
  raised : Option (Failure ε) := none

abbrev Observer (σ ε : Type) := σ → Session → Reaction σ ε

/-- An observer that only looks. -/
def Observer.silent (σ ε : Type) : Observer σ ε := fun st s => { state := st, session := s }

/-- The observer of a run, for an observer of the session. -/
def watch (settings : Settings) (observe : Observer σ ε) : Run.Observer (σ × Memory) ε :=
  fun (st, memory) board =>
    let r := observe st { board := board, settings := settings, memory := memory }
    { state := (r.state, r.session.memory), board := r.session.board
      cancels := r.cancels, raised := r.raised }

/-- What is left after a run. -/
structure Ended (σ ε : Type) where
  result : Except (Failure ε) Run.Result
  session : Session
  observer : σ
  pauses : Nat := 0
  logs : List Log.Record := []

def notEditing (phase : Phase) : Diagnostic where
  kind := .boardState
  message := "Cannot start a run while the board is " ++ phase.name
  hint := some "Reset the board before running again."

def compilationFailed (d : Diagnostic) : Log.Record :=
  ⟨.info, "qdraw.runtime.session", "Compilation failed: " ++ d.code⟩

/-- Takes the board to its last phase. When the board refuses, that is the failure. -/
def settle (s : Session) (target : Phase) (after : Session → Session)
    (result : Except (Failure ε) Run.Result) : Except (Failure ε) Run.Result × Session :=
  match s.board.transition target with
  | .error f => (.error (.diagnostic f.diagnostic), s)
  | .ok board => (result, after { s with board := board })

/-- Closes a run that has ended. -/
def conclude (s : Session) (outcome : Except (Failure ε) Run.Result) :
    Except (Failure ε) Run.Result × Session :=
  match outcome with
  | .error f => s.settle .failed id (.error f)
  | .ok r =>
    if r.success then
      let remember (s : Session) : Session :=
        { s with memory := { s.memory with final := some s.board.snapshot, last := some r } }
      s.settle .finished remember (.ok r)
    else
      let remember (s : Session) : Session :=
        { s with memory := { s.memory with last := some r } }
      s.settle .failed remember (.ok r)

/-- An executor for a source text. -/
def prepare (s : Settings) (source : String) (speed : Value) :
    Except (Failure ε) (Run.Executor × List Log.Record) := do
  let program ← compile s source
  Run.Executor.create program speed s

/-- Compiles and runs a source text. A program that does not compile gives a failed result and
leaves the board in editing. -/
def run (s : Session) (source : String) (speed : Value) (observe : Observer σ ε) (st : σ) :
    Ended σ ε :=
  if s.board.phase ≠ .editing then
    { result := .error (.diagnostic (notEditing s.board.phase)), session := s, observer := st }
  else
    let s := { s with memory := { s.memory with
      initial := some s.board.snapshot, final := none, startHead := some s.board.head } }
    match prepare s.settings source speed with
    | .error (.diagnostic d) =>
      let r : Run.Result := { success := false, steps := 0, error := some d }
      { result := .ok r
        session := { s with memory := { s.memory with last := some r } }
        observer := st
        logs := [compilationFailed d] }
    | .error f => { result := .error f, session := s, observer := st }
    | .ok (executor, logs) =>
      let s := { s with memory := { s.memory with started := true } }
      match s.board.startRun with
      | .error f =>
        { result := .error (.diagnostic f.diagnostic), session := s, observer := st, logs := logs }
      | .ok board =>
        let r := executor.run (executor.paced (watch s.settings observe)) (st, s.memory) board
        let (result, after) := conclude
          { s with board := r.board, memory := r.observer.2 } r.outcome
        { result := result, session := after, observer := r.observer.1, pauses := r.pauses
          logs := logs ++ r.logs }

end Session

end Trazo
