import Mathlib.Data.List.Chain
import Trazo.Proofs.Run.Transition

/-!
The call stack is the names on the frames.

Frames of loops and branches stand between those of procedures, but only the latter carry a name,
and a name is put on the stack and taken off it together with its frame. Every block on the frames
is part of the procedure whose name is the last at or below it, so the names are a chain of calls
that starts in the main block.
-/

namespace Trazo.Run

variable {σ ε : Type}

/-! ### Chains of calls -/

mutual

/-- The names that a statement calls, itself or in a block that it holds. -/
def callees : Statement → List String
  | .call name _ => [name]
  | .loop _ body _ => blockCallees body
  | .branch _ yes none _ => blockCallees yes
  | .branch _ yes (some no) _ => blockCallees yes ++ blockCallees no
  | .command .. | .foreign .. => []

def blockCallees : Block → List String
  | [] => []
  | s :: r => callees s ++ blockCallees r

end

/-- The name `b` is called in the body of the procedure `a`. -/
def Invokes (table : List Procedure) (a b : String) : Prop :=
  ∃ p, Procedure.find? table a = some p ∧ b ∈ blockCallees p.body

/-- The first name is called in the main block, each next one in the procedure before it. -/
structure CallChain (main : Block) (table : List Procedure) (stack : List String) : Prop where
  first : ∀ a, stack.head? = some a → a ∈ blockCallees main
  next : stack.IsChain (Invokes table)

/-- The name is called in the last procedure of the stack, or in the main block if there is none. -/
def CalledAt (main : Block) (table : List Procedure) (stack : List String) (name : String) : Prop :=
  match stack.getLast? with
  | none => name ∈ blockCallees main
  | some a => Invokes table a name

variable {main b : Block} {table : List Procedure} {stack : List String} {name : String}

lemma CallChain.snoc (h : CallChain main table stack) (hn : CalledAt main table stack name) :
    CallChain main table (stack ++ [name]) := by
  unfold CalledAt at hn
  cases hlast : stack.getLast? with
  | none =>
    rw [hlast] at hn
    obtain rfl := List.getLast?_eq_none_iff.mp hlast
    refine ⟨?_, List.isChain_singleton name⟩
    intro a ha
    obtain rfl : name = a := by simpa using ha
    exact hn
  | some a =>
    rw [hlast] at hn
    refine ⟨?_, ?_⟩
    · intro c hc
      cases stack with
      | nil => simp at hlast
      | cons d r => exact h.first c (by simpa using hc)
    · refine List.isChain_append.mpr ⟨h.next, List.isChain_singleton name, ?_⟩
      intro c hc d hd
      obtain rfl : a = c := by simpa [hlast] using hc
      obtain rfl : name = d := by simpa using hd
      exact hn

lemma CallChain.of_append {rest : List String} (h : CallChain main table (stack ++ rest)) :
    CallChain main table stack := by
  refine ⟨?_, h.next.left_of_append⟩
  intro a ha
  exact h.first a (by simp [ha])

/-! ### Names on frames -/

/-- The names of the procedures that the frames carry, from the bottom to the top. -/
def frameNames (frames : List Frame) : List String := (frames.filterMap (·.procedure)).reverse

lemma frameNames_cons (f : Frame) (below : List Frame) :
    frameNames (f :: below) = frameNames below ++ f.procedure.toList := by
  unfold frameNames
  cases h : f.procedure <;> simp [h]

/-- What a block calls is called at this stack. -/
def Sited (main : Block) (table : List Procedure) (stack : List String) (b : Block) : Prop :=
  ∀ name ∈ blockCallees b, CalledAt main table stack name

/-- Each frame holds blocks of the procedure whose name is the last at or below it. -/
def AllSited (main : Block) (table : List Procedure) : List Frame → Prop
  | [] => True
  | f :: below => Sited main table (frameNames (f :: below)) f.body ∧
    Sited main table (frameNames (f :: below)) f.todo ∧ AllSited main table below

/-- The tally after a frame has been left. -/
def leaving (t : Tally) (f : Frame) : Tally := if f.procedure.isSome then t.leave else t

lemma stack_leave (t : Tally) : t.leave.stack = t.stack.dropLast := by
  simp [Tally.stack, Tally.leave, Calls.pop]

lemma stack_push (t : Tally) (name : String) :
    ({ t with calls := t.calls.push name } : Tally).stack = t.stack ++ [name] := by
  simp [Tally.stack, Calls.push]

lemma length_stack (t : Tally) : t.stack.length = t.calls.depth := by
  simp [Tally.stack, t.calls.depth_eq]

/-- Leaving a frame takes its name off the stack, if it has one. -/
lemma stack_leaving {t : Tally} {f : Frame} {below : List Frame}
    (h : t.stack = frameNames (f :: below)) : (leaving t f).stack = frameNames below := by
  rw [frameNames_cons] at h
  unfold leaving
  cases hp : f.procedure with
  | none => simpa [hp] using h
  | some name => simp [stack_leave, h, hp]

/-- Leaving frames from the top leaves the names of the others. -/
lemma stack_foldl_leaving {t : Tally} {above below : List Frame}
    (h : t.stack = frameNames (above ++ below)) :
    (above.foldl leaving t).stack = frameNames below := by
  induction above generalizing t with
  | nil => exact h
  | cons f r ih => exact ih (stack_leaving h)

/-! ### One step -/

namespace Machine

/-- While the frames of the machine are left from the top, a call is there to be left with each
frame of a procedure. -/
def LeavesCalls (m : Machine σ) : Prop :=
  ∀ above f below, m.frames = above ++ f :: below → f.procedure.isSome →
    (above.foldl leaving m.tally).stack ≠ []

/-- The next statement is a command, and the observer raises `f` after it. -/
def ObserverRaises (code : Code σ ε) (m : Machine σ) (f : Failure ε) : Prop :=
  ∃ n c line b, Fetches m (.command c line) n ∧ m.board.perform c (some line) = .ok b ∧
    (code.observe m.observer b).raised = some f

/-- The stack of the machine is the names on its frames, a chain of calls within the limit. -/
structure Calling (main : Block) (table : List Procedure) (limit : Nat) (m : Machine σ) :
    Prop where
  stack : m.tally.stack = frameNames m.frames
  sited : AllSited main table m.frames
  chain : CallChain main table m.tally.stack
  maxDepth : m.tally.maxDepth = limit
  bounded : m.tally.stack.length ≤ limit

variable {code : Code σ ε} {m n : Machine σ} {s : Statement} {limit : Nat}

lemma Calling.leavesCalls (h : m.Calling main table limit) : m.LeavesCalls := by
  intro above f below hf hp hnil
  have hs := h.stack
  rw [hf] at hs
  rw [stack_foldl_leaving hs, frameNames_cons] at hnil
  obtain ⟨name, hname⟩ := Option.isSome_iff_exists.mp hp
  simp [hname] at hnil

lemma Calling.unwind (h : m.Calling main table limit) : m.unwind.stack = [] := by
  have hs : m.tally.stack = frameNames (m.frames ++ []) := by rw [List.append_nil, h.stack]
  exact stack_foldl_leaving hs

/-- Taking a statement off the frames changes no name, and what it calls is called here. -/
lemma Calling.fetches (h : m.Calling main table limit) (hs : Fetches m s n) :
    n.Calling main table limit ∧ ∀ name ∈ callees s, CalledAt main table n.tally.stack name := by
  cases hs with
  | @mk f below s rest hf ht =>
    have hstack := h.stack
    have hsited := h.sited
    rw [hf] at hstack hsited
    obtain ⟨hbody, htodo, hbelow⟩ := hsited
    rw [ht] at htodo
    refine ⟨⟨?_, ⟨?_, ?_, hbelow⟩, h.chain, h.maxDepth, h.bounded⟩, ?_⟩
    · rw [frameNames_cons] at hstack ⊢
      exact hstack
    · rw [frameNames_cons] at hbody ⊢
      exact hbody
    · rw [frameNames_cons] at htodo ⊢
      exact fun name hn => htodo name (by simp [blockCallees, hn])
    · intro name hn
      rw [hstack]
      exact htodo name (by simp [blockCallees, hn])

/-- A block of the procedure that is running may be put on the frames. -/
lemma Calling.push (h : m.Calling main table limit) (hb : Sited main table m.tally.stack b)
    (k : Nat) : (m.push { body := b, todo := b, again := k }).Calling main table limit := by
  have hnames : frameNames ({ body := b, todo := b, again := k } :: m.frames) = m.tally.stack := by
    rw [frameNames_cons, h.stack]
    simp
  refine ⟨hnames.symm, ⟨?_, ?_, h.sited⟩, h.chain, h.maxDepth, h.bounded⟩
  · rw [hnames]
    exact hb
  · rw [hnames]
    exact hb

lemma sited_chosen {q : Sensor} {yes : Block} {no : Option Block} {line : Int} {holds : Bool}
    (h : ∀ name ∈ callees (.branch q yes no line), CalledAt main table stack name) :
    Sited main table stack (chosen holds yes no) := by
  intro name hn
  refine h name ?_
  unfold chosen at hn
  cases no with
  | none => cases holds <;> simp_all [callees, blockCallees]
  | some no => cases holds <;> simp_all [callees]

/-- A procedure is entered with its name. -/
lemma Calling.called {p : Procedure} (h : m.Calling main table limit)
    (hn : CalledAt main table m.tally.stack name) (hp : Procedure.find? table name = some p)
    (hd : (m.tally.calls.depth : Int) < m.tally.maxDepth) :
    (m.called name p).Calling main table limit := by
  have hname : p.name = name := by simpa [Procedure.find?] using List.find?_some hp
  have hstack : (m.called name p).tally.stack = m.tally.stack ++ [name] := stack_push m.tally name
  have hnames : frameNames (m.called name p).frames = m.tally.stack ++ [name] := by
    rw [Machine.called, frameNames_cons, h.stack, hname]
    rfl
  have hsited : Sited main table (frameNames (m.called name p).frames) p.body := by
    intro c hc
    rw [hnames, CalledAt, List.getLast?_concat]
    exact ⟨p, hp, hc⟩
  refine ⟨hstack.trans hnames.symm, ⟨hsited, hsited, h.sited⟩, ?_, h.maxDepth, ?_⟩
  · rw [hstack]
    exact h.chain.snoc hn
  · have hlimit := h.maxDepth
    have hlen := length_stack m.tally
    rw [hstack, List.length_append, List.length_singleton]
    omega

/-- **Each step** keeps the stack in line with the frames. -/
theorem Calling.moves (h : m.Calling main code.table limit) (hm : Moves code m n) :
    n.Calling main code.table limit := by
  cases hm with
  | @again f below k hf ht ha =>
    have hstack := h.stack
    have hsited := h.sited
    rw [hf] at hstack hsited
    obtain ⟨hbody, -, hbelow⟩ := hsited
    rw [frameNames_cons] at hstack hbody
    refine ⟨?_, ⟨?_, ?_, hbelow⟩, h.chain, h.maxDepth, h.bounded⟩
    all_goals rw [frameNames_cons]; assumption
  | @leave f below hf ht ha =>
    have hstack := h.stack
    have hsited := h.sited
    rw [hf] at hstack hsited
    have hleft : (leaving m.tally f).stack = frameNames below := stack_leaving hstack
    have hchain := h.chain
    have hbounded := h.bounded
    rw [hstack, frameNames_cons] at hchain hbounded
    refine ⟨hleft, hsited.2.2, ?_, ?_, ?_⟩
    · exact hleft ▸ hchain.of_append
    · have hmax := h.maxDepth
      cases f.procedure <;> exact hmax
    · have hlen : (leaving m.tally f).stack.length ≤ limit := by
        rw [hleft]
        rw [List.length_append] at hbounded
        omega
      exact hlen
  | pass hs => exact (h.fetches hs).1
  | enter hs =>
    obtain ⟨hn, hc⟩ := h.fetches hs
    exact hn.push hc _
  | command hs =>
    have hn := (h.fetches hs).1
    exact ⟨hn.stack, hn.sited, hn.chain, hn.maxDepth, hn.bounded⟩
  | @call name line n p hs _ _ hp hd =>
    obtain ⟨hn, hc⟩ := h.fetches hs
    have ht : n.tally = m.tally := by cases hs; rfl
    have hcounted : n.counted.Calling main code.table limit :=
      ⟨hn.stack, hn.sited, hn.chain, hn.maxDepth, hn.bounded⟩
    refine hcounted.called (hc name (by simp [callees])) hp ?_
    simpa [counted, ht] using hd
  | @branch q yes no line n holds b hs _ _ _ hb =>
    obtain ⟨hn, hc⟩ := h.fetches hs
    have hcounted : n.counted.Calling main code.table limit :=
      ⟨hn.stack, hn.sited, hn.chain, hn.maxDepth, hn.bounded⟩
    subst hb
    split
    · exact hcounted
    · exact hcounted.push (sited_chosen hc) _

/-- A step that halts changes no name. -/
lemma Calling.halts {f : Failure ε} (h : m.Calling main table limit) (hm : Halts code m f n) :
    n.Calling main table limit := by
  cases hm with
  | cancelled hs | overLimit hs | exhausted hs => exact (h.fetches hs).1
  | refused hs | raised hs | unknown hs | tooDeep hs | blind hs | foreign hs =>
    have hn := (h.fetches hs).1
    exact ⟨hn.stack, hn.sited, hn.chain, hn.maxDepth, hn.bounded⟩

/-- A step that halts because calls are too deep tells of a chain that is one too long. The same may
be told by an observer, of whatever it likes. -/
lemma Calling.recursionLimit {d : Diagnostic} {k : Option Int}
    (h : m.Calling main code.table limit) (hm : Halts code m (.diagnostic d) n)
    (hd : d.kind = .recursionLimit k stack) :
    m.ObserverRaises code (.diagnostic d) ∨
      k = some (limit : Int) ∧ stack.length = limit + 1 ∧ CallChain main code.table stack := by
  generalize hf : (.diagnostic d : Failure ε) = f at hm
  cases hm with
  | raised hs _ _ hb hr => exact .inl ⟨_, _, _, _, hs, hb, hf ▸ hr⟩
  | @tooDeep name line n p hs _ _ hp hdeep =>
    obtain rfl := Failure.report_eq_diagnostic hf.symm
    simp only [Fault.diagnostic, Diagnostic.Kind.recursionLimit.injEq] at hd
    obtain ⟨rfl, rfl⟩ := hd
    obtain ⟨-, hc⟩ := h.fetches hs
    have ht : n.tally = m.tally := by cases hs; rfl
    rw [ht] at hc
    have hlen := length_stack m.tally
    have hbounded := h.bounded
    have hmax := h.maxDepth
    refine .inr ⟨by rw [hmax], ?_, h.chain.snoc (hc name (by simp [callees]))⟩
    rw [List.length_append, List.length_singleton]
    omega
  | @refused c line n f =>
    cases f with
    | grid => cases hf
    | refused f =>
      obtain rfl := Failure.report_eq_diagnostic hf.symm
      cases f <;> simp [BoardFault.diagnostic] at hd
  | overLimit | exhausted =>
    obtain rfl := Failure.report_eq_diagnostic hf.symm
    simp [Fault.diagnostic] at hd
  | cancelled | unknown =>
    cases hf
    simp [Fault.diagnostic] at hd
  | blind | foreign => cases hf

end Machine

/-! ### Whole runs -/

namespace Executor

variable {e : Executor} {main : MainBlock}

lemma calling_machine (e : Executor) (main : MainBlock) (board : Board) (st : σ) :
    (e.machine main board st).Calling main.body e.table e.settings.maxDepth := by
  have hsited : Sited main.body e.table [] main.body := fun name hn => hn
  exact ⟨rfl, ⟨hsited, hsited, trivial⟩, ⟨by simp [machine, freshTally, Tally.stack, Calls.empty],
    .nil⟩, rfl, Nat.zero_le _⟩

lemma calling_of_steps {k : Nat} {observe : Observer σ ε} {st : σ} {board : Board} {m : Machine σ}
    (h : Steps (e.code observe) k (e.machine main board st) m) :
    m.Calling main.body e.table e.settings.maxDepth := by
  refine h.invariant (P := fun m => m.Calling main.body e.table e.settings.maxDepth) ?_
    (e.calling_machine main board st)
  intro m n hm (hs : Moves (e.code observe) m n)
  exact Machine.Calling.moves hm hs

/-- **The call stack** is the names on the frames at every step of a run. It stays within the limit,
no call is left that was not entered, and none is left over in the end. A run that fails because
calls are too deep tells of a chain of calls that starts in the main block and is one too long. -/
theorem run_call_stack (hmain : e.program.main = some main) (observe : Observer σ ε) (st : σ)
    (board : Board) :
    (∀ k m, Steps (e.code observe) k (e.machine main board st) m →
      m.tally.stack = frameNames m.frames ∧ m.tally.stack.length ≤ e.settings.maxDepth ∧
        m.LeavesCalls) ∧
    ((e.machine main board st).run (e.code observe)).2.LeavesCalls ∧
    (e.run observe st board).executor.tally.stack = [] ∧
    ∀ d limit stack, (e.run observe st board).result = .error (.diagnostic d) →
      d.kind = .recursionLimit limit stack →
        (∃ k m, Steps (e.code observe) k (e.machine main board st) m ∧
          m.ObserverRaises (e.code observe) (.diagnostic d)) ∨
        limit = some (e.settings.maxDepth : Int) ∧ stack.length = e.settings.maxDepth + 1 ∧
          CallChain main.body e.table stack := by
  obtain ⟨k, last, hk, he⟩ := exists_steps_run (e.code observe) (e.machine main board st)
  have hlast : last.Calling main.body e.table e.settings.maxDepth := calling_of_steps hk
  have hstop : ((e.machine main board st).run (e.code observe)).2.Calling main.body e.table
      e.settings.maxDepth := by
    generalize (e.machine main board st).run (e.code observe) = r at he
    cases he with
    | done => exact hlast
    | halt h => exact hlast.halts (Machine.halts_of_step h)
  refine ⟨?_, hstop.leavesCalls, ?_, ?_⟩
  · intro k m h
    have hm : m.Calling main.body e.table e.settings.maxDepth := calling_of_steps h
    exact ⟨hm.stack, hm.bounded, hm.leavesCalls⟩
  · simp only [run, hmain]
    exact hstop.unwind
  · intro d limit stack hresult hd
    rw [result_run hmain] at hresult
    generalize (e.machine main board st).run (e.code observe) = r at he hresult
    cases he with
    | done => cases hresult
    | halt h =>
      cases hresult
      have hhalts : Halts (e.code observe) last (.diagnostic d) _ := Machine.halts_of_step h
      rcases hlast.recursionLimit hhalts hd with hr | hc
      · exact .inl ⟨k, last, hk, hr⟩
      · exact .inr hc

/-- A procedure that calls itself, with one call allowed: the second is refused. -/
theorem run_call_stack_recursive :
    let main : MainBlock := ⟨[.loop 3 [.call "bajar" 2] 1], 1⟩
    let procedures : List Procedure := [⟨"bajar", [.call "bajar" 5], 4⟩]
    let e : Executor :=
      { program := { main := some main, procedures := procedures }, table := procedures
        speed := .instant, settings := { maxDepth := 1 }, tally := freshTally { maxDepth := 1 } }
    let observe : Observer Unit String := .silent Unit String
    ∀ board : Board,
      (e.run observe () board).result = .error (.diagnostic
        (Fault.recursionLimit "bajar" 1 ["bajar", "bajar"] (some 5)).diagnostic) ∧
      CallChain main.body procedures ["bajar", "bajar"] ∧
      (e.run observe () board).executor.tally.stack = [] := by
  intro main procedures e observe board
  have hresult : (e.run observe () board).result = .error (.diagnostic
      (Fault.recursionLimit "bajar" 1 ["bajar", "bajar"] (some 5)).diagnostic) := by
    -- into the loop, into the procedure, and no further
    have hrun : (e.machine main board ()).run (e.code observe) =
        (some (Fault.recursionLimit "bajar" 1 ["bajar", "bajar"] (some 5)).failure, _) :=
      (Machine.run_of_more rfl).trans ((Machine.run_of_more rfl).trans (Machine.run_of_halt rfl))
    rw [result_run rfl, hrun]
    rfl
  obtain ⟨-, -, hend, hlimit⟩ := run_call_stack (e := e) rfl observe () board
  refine ⟨hresult, ?_, hend⟩
  rcases hlimit _ _ _ hresult rfl with ⟨k, m, -, n, c, line, b, -, -, hr⟩ | ⟨-, -, hchain⟩
  · cases hr
  · exact hchain

end Executor

end Trazo.Run
