import Trazo.Proofs.Run.Meaning

/-!
All that one step of the machine can do, and runs as sequences of steps.

A step that goes on ends a pass, or takes the next statement off the top frame and runs it. A step
that halts has taken a statement too. What holds of every step is read off these cases, and what
holds of every run follows by induction on its steps.
-/

namespace Trazo.Run

variable {σ ε : Type}

/-! ### One step -/

/-- The machine `n` is `m` with the next statement taken off the top frame. -/
inductive Fetches : Machine σ → Statement → Machine σ → Prop
  | mk {m : Machine σ} {f : Frame} {below : List Frame} {s : Statement} {rest : Block}
      (hf : m.frames = f :: below) (ht : f.todo = s :: rest) :
      Fetches m s { m with frames := { f with todo := rest } :: below }

/-- One more statement is counted. -/
def Machine.counted (m : Machine σ) : Machine σ :=
  { m with tally := { m.tally with steps := m.tally.steps + 1 } }

/-- The board is `b` after one more command. -/
def Machine.commanded (m : Machine σ) (b : Board) : Machine σ :=
  { m with board := b, tally := { m.tally with commands := m.tally.commands + 1 } }

/-- The observer has reacted to the board. -/
def Machine.reacted (m : Machine σ) (r : Reaction σ ε) : Machine σ :=
  { m with observer := r.state, board := r.board, cancelled := m.cancelled || r.cancels }

/-- The name of a call is put on the stack, and the body of its procedure on the frames. -/
def Machine.called (m : Machine σ) (name : String) (p : Procedure) : Machine σ :=
  { m with
    tally := { m.tally with calls := m.tally.calls.push name }
    frames := { body := p.body, todo := p.body, procedure := some p.name } :: m.frames }

/-- The block that a condition chooses. -/
def chosen (holds : Bool) (yes : Block) (no : Option Block) : Block :=
  if holds then yes else no.getD []

/-- Another statement may be counted. -/
def Machine.HasStep (m : Machine σ) : Prop := (m.tally.steps : Int) < m.tally.maxSteps

/-- The machine `m` goes on as `n`. -/
inductive Moves (code : Code σ ε) (m : Machine σ) : Machine σ → Prop
  -- the end of a pass
  | again {f : Frame} {below : List Frame} {k : Nat} (hf : m.frames = f :: below)
      (ht : f.todo = []) (ha : f.again = k + 1) :
      Moves code m { m with frames := { f with todo := f.body, again := k } :: below }
  | leave {f : Frame} {below : List Frame} (hf : m.frames = f :: below) (ht : f.todo = [])
      (ha : f.again = 0) :
      Moves code m { m with
        frames := below
        tally := if f.procedure.isSome then m.tally.leave else m.tally }
  -- loops
  | pass {count : Int} {body : Block} {line : Int} {n : Machine σ}
      (hs : Fetches m (.loop count body line) n) (hc : m.cancelled = false)
      (ho : overLimit code.inert code.maxRepeat (.loop count body line) = none)
      (h : count ≤ 0 ∨ code.inert body = true) : Moves code m n
  | enter {count : Int} {body : Block} {line : Int} {n : Machine σ}
      (hs : Fetches m (.loop count body line) n) (hc : m.cancelled = false)
      (ho : overLimit code.inert code.maxRepeat (.loop count body line) = none)
      (hn : 0 < count) (hi : code.inert body = false) :
      Moves code m (n.push { body := body, todo := body, again := (count - 1).toNat })
  -- counted statements
  | command {c : Command} {line : Int} {n : Machine σ} {b : Board}
      (hs : Fetches m (.command c line) n) (hc : m.cancelled = false) (hn : m.HasStep)
      (hb : m.board.perform c (some line) = .ok b)
      (hr : (code.observe m.observer b).raised = none) :
      Moves code m { (n.counted.commanded b).reacted (code.observe m.observer b) with
        pauses := m.pauses + 1 }
  | call {name : String} {line : Int} {n : Machine σ} {p : Procedure}
      (hs : Fetches m (.call name line) n) (hc : m.cancelled = false) (hn : m.HasStep)
      (hp : Procedure.find? code.table name = some p)
      (hd : (m.tally.calls.depth : Int) < m.tally.maxDepth) :
      Moves code m (n.counted.called name p)
  | branch {q : Sensor} {yes : Block} {no : Option Block} {line : Int} {n : Machine σ}
      {holds : Bool} {b : Block} (hs : Fetches m (.branch q yes no line) n)
      (hc : m.cancelled = false) (hn : m.HasStep) (hq : m.board.senses q = .ok holds)
      (hb : chosen holds yes no = b) :
      Moves code m (if b.isEmpty then n.counted else n.counted.push { body := b, todo := b })

/-- The machine `m` halts with a failure, in the state `n`. -/
inductive Halts (code : Code σ ε) (m : Machine σ) : Failure ε → Machine σ → Prop
  | cancelled {s : Statement} {n : Machine σ} (hs : Fetches m s n) (hc : m.cancelled = true) :
      Halts code m (.diagnostic (Fault.cancelled s.line).diagnostic) n
  | overLimit {count : Int} {body : Block} {line : Int} {n : Machine σ} {k place : Int}
      (hs : Fetches m (.loop count body line) n) (hc : m.cancelled = false)
      (ho : overLimit code.inert code.maxRepeat (.loop count body line) = some (k, place)) :
      Halts code m (Fault.repeatLimit k code.maxRepeat place).failure n
  | exhausted {s : Statement} {n : Machine σ} (hs : Fetches m s n) (hk : isCounted s = true)
      (hc : m.cancelled = false) (hn : ¬ m.HasStep) :
      Halts code m (Fault.stepLimit m.tally.maxSteps (some s.line)).failure n
  | refused {c : Command} {line : Int} {n : Machine σ} {f : BoardFailure}
      (hs : Fetches m (.command c line) n) (hc : m.cancelled = false) (hn : m.HasStep)
      (hb : m.board.perform c (some line) = .error f) :
      Halts code m (.ofBoardFailure f) n.counted
  | raised {c : Command} {line : Int} {n : Machine σ} {b : Board} {f : Failure ε}
      (hs : Fetches m (.command c line) n) (hc : m.cancelled = false) (hn : m.HasStep)
      (hb : m.board.perform c (some line) = .ok b)
      (hr : (code.observe m.observer b).raised = some f) :
      Halts code m f ((n.counted.commanded b).reacted (code.observe m.observer b))
  | unknown {name : String} {line : Int} {n : Machine σ}
      (hs : Fetches m (.call name line) n) (hc : m.cancelled = false) (hn : m.HasStep)
      (hp : Procedure.find? code.table name = none) :
      Halts code m (.diagnostic
        (Fault.unknownProcedure name (code.table.map (·.name)) line).diagnostic) n.counted
  | tooDeep {name : String} {line : Int} {n : Machine σ} {p : Procedure}
      (hs : Fetches m (.call name line) n) (hc : m.cancelled = false) (hn : m.HasStep)
      (hp : Procedure.find? code.table name = some p)
      (hd : m.tally.maxDepth ≤ m.tally.calls.depth) :
      Halts code m (Fault.recursionLimit name m.tally.maxDepth
        (m.tally.stack ++ [name]) (some line)).failure n.counted
  | blind {q : Sensor} {yes : Block} {no : Option Block} {line : Int} {n : Machine σ}
      {f : GridFault} (hs : Fetches m (.branch q yes no line) n) (hc : m.cancelled = false)
      (hn : m.HasStep) (hq : m.board.senses q = .error f) : Halts code m (.grid f) n.counted
  | foreign {kind : String} {line : Int} {n : Machine σ}
      (hs : Fetches m (.foreign kind line) n) (hc : m.cancelled = false) (hn : m.HasStep) :
      Halts code m (.unknownStatement kind) n.counted

/-- What a step leads to is one of the cases. -/
def Next.Follows (code : Code σ ε) (m : Machine σ) : Next σ ε → Prop
  | .more n => Moves code m n
  | .done => m.frames = []
  | .halt f n => Halts code m f n

namespace Machine

variable {code : Code σ ε} {m n : Machine σ} {s : Statement}

lemma follows_loop {count : Int} {body : Block} {line : Int}
    (hs : Fetches m (.loop count body line) n) (hc : m.cancelled = false)
    (hn : n.cancelled = false) :
    (statement code n (.loop count body line)).Follows code m := by
  unfold statement
  simp only [hn]
  cases ho : overLimit code.inert code.maxRepeat (.loop count body line) with
  | some c => exact Halts.overLimit hs hc ho
  | none =>
    cases hi : code.inert body with
    | true =>
      simp only [Bool.not_true, Bool.and_false]
      exact Moves.pass hs hc ho (.inr hi)
    | false =>
      by_cases hpos : count > 0
      · simp only [hpos, decide_true, Bool.not_false, Bool.and_true, if_true]
        exact Moves.enter hs hc ho hpos hi
      · simp only [hpos, decide_false, Bool.false_and]
        exact Moves.pass hs hc ho (.inl (by omega))

lemma follows_notify {c : Command} {line : Int} {b : Board} (hs : Fetches m (.command c line) n)
    (hc : m.cancelled = false) (hn : m.HasStep) (hb : m.board.perform c (some line) = .ok b) :
    (notify code (n.counted.commanded b)).Follows code m := by
  have hobs : n.observer = m.observer := by cases hs; rfl
  have hp : n.pauses = m.pauses := by cases hs; rfl
  unfold notify
  simp only [commanded, counted, hobs]
  cases hr : (code.observe m.observer b).raised with
  | some f => exact Halts.raised hs hc hn hb hr
  | none =>
    rw [hp]
    exact Moves.command hs hc hn hb hr

lemma follows_perform (hs : Fetches m s n) (hk : isCounted s = true) (hc : m.cancelled = false)
    (hn : m.HasStep) : (perform code n.counted s).Follows code m := by
  have hboard : n.counted.board = m.board := by cases hs; rfl
  have htally : n.counted.tally = m.counted.tally := by cases hs; rfl
  cases s with
  | command c line =>
    simp only [perform, hboard]
    cases hb : m.board.perform c (some line) with
    | error f => exact Halts.refused hs hc hn hb
    | ok b => exact follows_notify hs hc hn hb
  | call name line =>
    simp only [perform]
    cases hp : Procedure.find? code.table name with
    | none => exact Halts.unknown hs hc hn hp
    | some p =>
      by_cases hd : m.tally.maxDepth ≤ m.tally.calls.depth
      · have he : n.counted.tally.enter name (some line) = .error (.recursionLimit name
            m.tally.maxDepth (m.tally.stack ++ [name]) (some line)) := by
          rw [htally]
          exact if_pos hd
        simp only [he]
        exact Halts.tooDeep hs hc hn hp hd
      · have he : n.counted.tally.enter name (some line) =
            .ok (n.counted.called name p).tally := by
          rw [called, htally]
          exact if_neg hd
        simp only [he]
        exact Moves.call hs hc hn hp (by omega)
  | branch q yes no line =>
    simp only [perform, hboard]
    cases hq : m.board.senses q with
    | error f => exact Halts.blind hs hc hn hq
    | ok holds => exact Moves.branch hs hc hn hq rfl
  | foreign kind line => exact Halts.foreign hs hc hn
  | loop count body line => simp [isCounted] at hk

lemma follows_statement (hs : Fetches m s n) : (statement code n s).Follows code m := by
  have hcancel : n.cancelled = m.cancelled := by cases hs; rfl
  have htally : n.tally = m.tally := by cases hs; rfl
  cases hc : m.cancelled with
  | true =>
    simp only [statement, hcancel, hc, if_true]
    exact Halts.cancelled hs hc
  | false =>
    cases hk : isCounted s with
    | false =>
      cases s with
      | loop count body line => exact follows_loop hs hc (hcancel.trans hc)
      | _ => simp [isCounted] at hk
    | true =>
      by_cases hn : m.HasStep
      · have ht : n.tally.step (some s.line) = .ok n.counted.tally := by
          rw [Tally.step, htally, if_neg (Int.not_le.mpr hn), counted, htally]
        have he : statement code n s = perform code n.counted s := by
          unfold statement
          cases s <;> simp_all [isCounted, counted]
        rw [he]
        exact follows_perform hs hk hc hn
      · have ht : n.tally.step (some s.line) =
            .error (.stepLimit m.tally.maxSteps (some s.line)) := by
          rw [Tally.step, htally, if_pos (Int.not_lt.mp hn)]
        have he : statement code n s = n.stop (.stepLimit m.tally.maxSteps (some s.line)) := by
          unfold statement
          cases s <;> simp_all [isCounted]
        rw [he]
        exact Halts.exhausted hs hk hc hn

/-- **Every step** is one of the cases. -/
theorem follows_step (code : Code σ ε) (m : Machine σ) : (step code m).Follows code m := by
  unfold step
  split
  · assumption
  · rename_i f below hf
    split
    · rename_i ht
      unfold endFrame
      split
      · exact Moves.again hf ht ‹_›
      · exact Moves.leave hf ht ‹_›
    · exact follows_statement (.mk hf ‹_›)

lemma moves_of_step (h : step code m = .more n) : Moves code m n := by
  have := follows_step code m
  rwa [h] at this

lemma halts_of_step {f : Failure ε} (h : step code m = .halt f n) : Halts code m f n := by
  have := follows_step code m
  rwa [h] at this

lemma frames_of_step (h : step code m = .done) : m.frames = [] := by
  have := follows_step code m
  rwa [h] at this

/-! ### What a step does to the observer -/

/-- The observer has been shown `b` in the step from `m` to `n`. -/
structure Shows (code : Code σ ε) (m : Machine σ) (b : Board) (n : Machine σ) : Prop where
  performed : ∃ c line, m.board.perform c line = .ok b
  observer : n.observer = (code.observe m.observer b).state
  board : n.board = (code.observe m.observer b).board
  cancelled : n.cancelled = (m.cancelled || (code.observe m.observer b).cancels)
  commands : n.tally.commands = m.tally.commands + 1

/-- The observer has not been called in the step from `m` to `n`. -/
structure Quiet (m n : Machine σ) : Prop where
  observer : n.observer = m.observer
  board : n.board = m.board
  cancelled : n.cancelled = m.cancelled
  commands : n.tally.commands = m.tally.commands

lemma quiet_of_fetches (h : Fetches m s n) : m.Quiet n := by
  cases h
  exact ⟨rfl, rfl, rfl, rfl⟩

/-- A step calls the observer after a command, and in no other case. -/
lemma quiet_or_shows_of_moves (h : Moves code m n) :
    m.Quiet n ∨ ∃ b, Shows code m b n ∧ (code.observe m.observer b).raised = none := by
  cases h with
  | again => exact .inl ⟨rfl, rfl, rfl, rfl⟩
  | @leave f below hf ht ha =>
    refine .inl ⟨rfl, rfl, rfl, ?_⟩
    cases f.procedure <;> rfl
  | pass hs => exact .inl (quiet_of_fetches hs)
  | enter hs | call hs =>
    have hq := quiet_of_fetches hs
    exact .inl ⟨hq.observer, hq.board, hq.cancelled, hq.commands⟩
  | @command c line n b hs hc hn hb hr =>
    have hq := quiet_of_fetches hs
    refine .inr ⟨b, ⟨⟨c, some line, hb⟩, rfl, rfl, ?_, ?_⟩, hr⟩
    · simp [reacted, commanded, counted, hq.cancelled]
    · simp [reacted, commanded, counted, hq.commands]
  | branch hs =>
    have hq := quiet_of_fetches hs
    refine .inl ?_
    split
    all_goals exact ⟨hq.observer, hq.board, hq.cancelled, hq.commands⟩

/-- A step that halts calls the observer if that is what raises. -/
lemma quiet_or_shows_of_halts {f : Failure ε} (h : Halts code m f n) :
    m.Quiet n ∨ ∃ b, Shows code m b n ∧ (code.observe m.observer b).raised = some f := by
  cases h with
  | cancelled hs | overLimit hs | exhausted hs => exact .inl (quiet_of_fetches hs)
  | refused hs | unknown hs | tooDeep hs | blind hs | foreign hs =>
    have hq := quiet_of_fetches hs
    exact .inl ⟨hq.observer, hq.board, hq.cancelled, hq.commands⟩
  | @raised c line n b f hs hc hn hb hr =>
    have hq := quiet_of_fetches hs
    refine .inr ⟨b, ⟨⟨c, some line, hb⟩, rfl, rfl, ?_, ?_⟩, hr⟩
    · simp [reacted, commanded, counted, hq.cancelled]
    · simp [reacted, commanded, counted, hq.commands]

end Machine

/-! ### Sequences of steps -/

/-- The machine `n` is `m` after `k` steps. -/
inductive Steps (code : Code σ ε) : Nat → Machine σ → Machine σ → Prop
  | refl {m : Machine σ} : Steps code 0 m m
  | head {k : Nat} {m n p : Machine σ} (h : m.step code = .more n) (hs : Steps code k n p) :
      Steps code (k + 1) m p

variable {code : Code σ ε} {m n : Machine σ} {k : Nat}

/-- What every step keeps holds all along a run. -/
lemma Steps.invariant {P : Machine σ → Prop} (hP : ∀ {m n}, P m → Moves code m n → P n)
    (h : Steps code k m n) (hm : P m) : P n := by
  induction h with
  | refl => exact hm
  | head hs _ ih => exact ih (hP hm (Machine.moves_of_step hs))

/-- How a run ended, after its last step that went on: with no frame left, or with a failure. -/
inductive Ends (code : Code σ ε) (last : Machine σ) : Option (Failure ε) × Machine σ → Prop
  | done (hf : last.frames = []) : Ends code last (none, last)
  | halt {f : Failure ε} {n : Machine σ} (h : last.step code = .halt f n) :
      Ends code last (some f, n)

lemma Machine.run_of_more (h : m.step code = .more n) : m.run code = n.run code := by
  rw [Machine.run, h]

lemma Machine.run_of_halt {f : Failure ε} (h : m.step code = .halt f n) :
    m.run code = (some f, n) := by
  rw [Machine.run, h]

lemma Machine.run_of_done (hf : m.frames = []) : m.run code = (none, m) := by
  have hs : m.step code = .done := by rw [Machine.step, hf]
  rw [Machine.run, hs]

/-- **A run** is a sequence of steps, up to one that does not go on. -/
theorem exists_steps_run (code : Code σ ε) (m : Machine σ) :
    ∃ k last, Steps code k m last ∧ Ends code last (m.run code) := by
  induction m using Machine.run.induct code with
  | case1 m hs =>
    rw [Machine.run, hs]
    exact ⟨0, m, .refl, .done (Machine.frames_of_step hs)⟩
  | case2 m f last hs =>
    rw [Machine.run_of_halt hs]
    exact ⟨0, m, .refl, .halt hs⟩
  | case3 m n hs ih =>
    obtain ⟨k, last, hk, he⟩ := ih
    rw [Machine.run_of_more hs]
    exact ⟨k + 1, last, .head hs hk, he⟩

/-- What quiet steps keep, and steps that call the observer, holds at the end of a run. -/
lemma Machine.run_keeps {P : Machine σ → Prop} (hquiet : ∀ {m n}, P m → m.Quiet n → P n)
    (hshows : ∀ {m n b}, P m → Shows code m b n → P n) (hm : P m) : P (m.run code).2 := by
  obtain ⟨k, last, hk, he⟩ := exists_steps_run code m
  have hlast : P last := by
    refine hk.invariant (fun hp hmoves => ?_) hm
    rcases quiet_or_shows_of_moves hmoves with hq | ⟨b, hb, -⟩
    · exact hquiet hp hq
    · exact hshows hp hb
  generalize m.run code = r at he
  cases he with
  | done => exact hlast
  | halt h =>
    rcases quiet_or_shows_of_halts (halts_of_step h) with hq | ⟨b, hb, -⟩
    · exact hquiet hlast hq
    · exact hshows hlast hb

/-- What a command keeps together with the reaction to it, a run keeps of observer and board. -/
lemma Executor.run_keeps {e : Executor} {observe : Observer σ ε} {I : σ → Board → Prop}
    (hI : ∀ {st b c line shown}, I st b → b.perform c line = .ok shown →
      I (observe st shown).state (observe st shown).board)
    {st : σ} {board : Board} (h : I st board) :
    I (e.run observe st board).observer (e.run observe st board).board := by
  unfold Executor.run
  split
  · exact h
  · refine Machine.run_keeps (P := fun m => I m.observer m.board) ?_ ?_ h
    · intro m n hm hq
      rwa [hq.observer, hq.board]
    · intro m n b hm hb
      obtain ⟨c, line, hperform⟩ := hb.performed
      rw [hb.observer, hb.board]
      exact hI hm hperform

/-- The result of the machine that runs the main block is the result of the executor. -/
lemma Executor.result_run {e : Executor} {main : MainBlock} (hmain : e.program.main = some main)
    (observe : Observer σ ε) (st : σ) (board : Board) :
    (e.run observe st board).result =
      match (e.machine main board st).run (e.code observe) with
      | (none, m) => .ok m.tally.steps
      | (some f, _) => .error f := by
  simp only [Executor.run, hmain]
  rcases (e.machine main board st).run (e.code observe) with ⟨_ | f, m⟩ <;> rfl

end Trazo.Run
