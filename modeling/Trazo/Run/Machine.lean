import Trazo.Run.Tally

/-!
Running a program, one small step at a time.

The machine keeps a stack of frames, one for each block that is being run; a frame knows what is
left of the current pass through its block and how many passes follow. Commands, calls and
conditions are counted as steps, loops are not. After each command an observer sees the board; it
may change the board, ask for a stop, or raise. A stop takes effect before the next statement.

A run ends because a step either uses up one of the limited statements, or leaves less work that
needs none.
-/

namespace Trazo.Run

/-- What an observer does after a command. -/
structure Reaction (σ ε : Type) where
  state : σ
  board : Board
  cancels : Bool := false
  raised : Option (Failure ε) := none

/-- An observer sees the board after each command. What it does may depend on all it has seen. -/
abbrev Observer (σ ε : Type) := σ → Board → Reaction σ ε

/-- An observer that only looks. -/
def Observer.silent (σ ε : Type) : Observer σ ε := fun s b => { state := s, board := b }

/-- A block being run: the whole of it, the rest of this pass, and the number of passes after it.
The block of a procedure carries its name. -/
structure Frame where
  body : Block
  todo : Block
  again : Nat := 0
  procedure : Option String := none

/-- What stays the same during a run. Loops whose bodies are known to be inert are not entered. -/
structure Code (σ ε : Type) where
  table : List Procedure
  maxRepeat : Nat
  observe : Observer σ ε
  inert : Block → Bool := blockIsInert

structure Machine (σ : Type) where
  frames : List Frame
  board : Board
  tally : Tally
  /-- Whether a stop has been asked for. -/
  cancelled : Bool := false
  /-- Pauses made so far, one after each command. -/
  pauses : Nat := 0
  observer : σ

/-! ### Loops -/

mutual

/-- The first loop whose count is above the limit, of a loop and the inert loops that it would run;
with its count and its line. -/
def overLimit (inert : Block → Bool) (limit : Nat) : Statement → Option (Int × Int)
  | .loop count body line =>
    if count > limit then some (count, line)
    else if count > 0 && inert body then anyOverLimit inert limit body
    else none
  | .command .. | .call .. | .branch .. | .foreign .. => none

def anyOverLimit (inert : Block → Bool) (limit : Nat) : Block → Option (Int × Int)
  | [] => none
  | s :: r => (overLimit inert limit s).or (anyOverLimit inert limit r)

end

/-! ### One step -/

/-- What a step leads to: another state, the end of the program, or a failure and the state in
which it happened. -/
inductive Next (σ ε : Type)
  | more (m : Machine σ)
  | done
  | halt (f : Failure ε) (m : Machine σ)

variable {σ ε : Type}

namespace Machine

def push (m : Machine σ) (f : Frame) : Machine σ := { m with frames := f :: m.frames }

def stop (m : Machine σ) (f : Fault) : Next σ ε := .halt f.failure m

/-- Shows the board to the observer, then pauses unless it raises. -/
def notify (code : Code σ ε) (m : Machine σ) : Next σ ε :=
  let r := code.observe m.observer m.board
  let m := { m with
    observer := r.state, board := r.board, cancelled := m.cancelled || r.cancels }
  match r.raised with
  | some f => .halt f m
  | none => .more { m with pauses := m.pauses + 1 }

/-- Runs a statement that has been counted. -/
def perform (code : Code σ ε) (m : Machine σ) : Statement → Next σ ε
  | .command c line =>
    match m.board.perform c (some line) with
    | .error f => .halt (.ofBoardFailure f) m
    | .ok board =>
      notify code
        { m with board := board, tally := { m.tally with commands := m.tally.commands + 1 } }
  | .call name line =>
    match Procedure.find? code.table name with
    | none => m.stop (.unknownProcedure name (code.table.map (·.name)) line)
    | some p =>
      match m.tally.enter name (some line) with
      | .error f => m.stop f
      | .ok tally =>
        .more (push { m with tally := tally }
          { body := p.body, todo := p.body, procedure := some p.name })
  | .branch sensor yes no _ =>
    match m.board.senses sensor with
    | .error f => .halt (.grid f) m
    | .ok holds =>
      let body := if holds then yes else no.getD []
      .more (if body.isEmpty then m else m.push { body := body, todo := body })
  | .foreign kind _ => .halt (.unknownStatement kind) m
  | .loop .. => .more m

/-- Runs one statement. Loops are not counted: what they hold is. -/
def statement (code : Code σ ε) (m : Machine σ) (s : Statement) : Next σ ε :=
  if m.cancelled then m.stop (.cancelled s.line)
  else
    match s with
    | .loop count body _ =>
      match overLimit code.inert code.maxRepeat s with
      | some (n, line) => m.stop (.repeatLimit n code.maxRepeat line)
      | none =>
        if count > 0 && !code.inert body then
          .more (m.push { body := body, todo := body, again := (count - 1).toNat })
        else .more m
    | s =>
      match m.tally.step (some s.line) with
      | .error f => m.stop f
      | .ok tally => perform code { m with tally := tally } s

/-- The end of a frame: another pass, or back to the frame below. -/
def endFrame (m : Machine σ) (f : Frame) (below : List Frame) : Machine σ :=
  match f.again with
  | n + 1 => { m with frames := { f with todo := f.body, again := n } :: below }
  | 0 =>
    { m with
      frames := below
      tally := if f.procedure.isSome then m.tally.leave else m.tally }

def step (code : Code σ ε) (m : Machine σ) : Next σ ε :=
  match m.frames with
  | [] => .done
  | f :: below =>
    match f.todo with
    | [] => .more (m.endFrame f below)
    | s :: rest => statement code { m with frames := { f with todo := rest } :: below } s

end Machine

/-! ### Every run ends -/

mutual

/-- Bounds the steps that a statement causes before another statement is counted. -/
def work : Statement → Nat
  | .loop count body _ => 2 + count.toNat * (blockWork body + 1)
  | .command .. | .call .. | .branch .. | .foreign .. => 1

def blockWork : Block → Nat
  | [] => 0
  | s :: r => work s + blockWork r

end

def Frame.work (f : Frame) : Nat := blockWork f.todo + f.again * (blockWork f.body + 1) + 1

def framesWork : List Frame → Nat
  | [] => 0
  | f :: r => f.work + framesWork r

namespace Machine

def work (m : Machine σ) : Nat := framesWork m.frames

/-- What gets smaller with each step, the statements left counting most. -/
def measure (m : Machine σ) : Nat × Nat := (m.tally.left, m.work)

/-- One machine is closer to its end than another. -/
def Less (m n : Machine σ) : Prop :=
  m.tally.left < n.tally.left ∨ m.tally.left = n.tally.left ∧ m.work < n.work

theorem left_lt_of_step {t u : Tally} {line : Option Int} (h : t.step line = .ok u) :
    u.left < t.left := by
  unfold Tally.step at h
  split at h
  · cases h
  · cases h
    simp only [Tally.left]
    omega

theorem left_eq_of_enter {t u : Tally} {name : String} {line : Option Int}
    (h : t.enter name line = .ok u) : u.left = t.left := by
  unfold Tally.enter at h
  split at h
  · cases h
  · cases h
    rfl

theorem left_notify {code : Code σ ε} {m n : Machine σ} (h : notify code m = .more n) :
    n.tally.left = m.tally.left := by
  unfold notify at h
  dsimp only at h
  split at h
  · cases h
  · cases h
    rfl

/-- A statement that has been counted uses no further count. -/
theorem left_perform {code : Code σ ε} {m n : Machine σ} {s : Statement}
    (h : perform code m s = .more n) : n.tally.left = m.tally.left := by
  cases s with
  | command c line =>
    simp only [perform] at h
    split at h
    · cases h
    · rw [left_notify h]
      rfl
  | call name line =>
    simp only [perform] at h
    split at h
    · cases h
    · split at h
      · cases h
      · rename_i _ ht
        cases h
        exact left_eq_of_enter ht
  | branch sensor yes no line =>
    simp only [perform] at h
    split at h
    · cases h
    · cases h
      split <;> split <;> rfl
  | foreign kind line => cases h
  | loop count body line =>
    cases h
    rfl

theorem less_statement {code : Code σ ε} {m n : Machine σ} {f : Frame} {below : List Frame}
    {s : Statement} {rest : Block} (hf : m.frames = f :: below) (ht : f.todo = s :: rest)
    (h : statement code { m with frames := { f with todo := rest } :: below } s = .more n) :
    Less n m := by
  have hw : m.work = Run.work s + (blockWork rest + f.again * (blockWork f.body + 1) + 1) +
      framesWork below := by
    simp only [work, hf, framesWork, Frame.work, ht, blockWork]
    omega
  unfold statement at h
  split at h
  · cases h
  · split at h
    · split at h
      · cases h
      · refine .inr ?_
        split at h
        · rename_i count body line _ _ hc
          cases h
          refine ⟨rfl, ?_⟩
          have hpos : 0 < count := by
            simp only [Bool.and_eq_true, decide_eq_true_eq] at hc
            exact hc.1
          have hn : count.toNat = (count - 1).toNat + 1 := by omega
          rw [hw]
          simp only [work, push, framesWork, Frame.work, Run.work, hn,
            Nat.add_mul]
          omega
        · cases h
          refine ⟨rfl, ?_⟩
          rw [hw]
          simp only [work, framesWork, Frame.work, Run.work]
          omega
    · split at h
      · cases h
      · rename_i ht
        refine .inl ?_
        rw [left_perform h]
        exact left_lt_of_step ht

theorem less_endFrame {m : Machine σ} {f : Frame} {below : List Frame}
    (hf : m.frames = f :: below) (ht : f.todo = []) : Less (m.endFrame f below) m := by
  refine .inr ?_
  have hw : m.work = f.again * (blockWork f.body + 1) + 1 + framesWork below := by
    simp only [work, hf, framesWork, Frame.work, ht, blockWork]
    omega
  unfold endFrame
  split
  · rename_i n hn
    refine ⟨rfl, ?_⟩
    rw [hw, hn, Nat.succ_mul]
    simp only [work, framesWork, Frame.work]
    omega
  · refine ⟨?_, ?_⟩
    · dsimp only
      split <;> rfl
    · rw [hw]
      simp only [work]
      omega

/-- Each step brings a machine closer to its end. -/
theorem less_step {code : Code σ ε} {m n : Machine σ} (h : step code m = .more n) : Less n m := by
  unfold step at h
  split at h
  · cases h
  · rename_i f below hf
    split at h
    · cases h
      exact less_endFrame hf ‹_›
    · exact less_statement hf ‹_› h

/-- Runs a machine to its end: the failure that ended it, if any, and its last state. -/
def run (code : Code σ ε) (m : Machine σ) : Option (Failure ε) × Machine σ :=
  match _h : step code m with
  | .done => (none, m)
  | .halt f last => (some f, last)
  | .more n => run code n
termination_by m.measure
decreasing_by
  rcases less_step _h with h | ⟨he, h⟩
  · exact Prod.Lex.left _ _ h
  · simp only [measure, he]
    exact Prod.Lex.right _ h

/-- Leaves the calls of all frames that a failure has left behind. -/
def unwind (m : Machine σ) : Tally :=
  m.frames.foldl (fun t f => if f.procedure.isSome then t.leave else t) m.tally

end Machine

end Trazo.Run
