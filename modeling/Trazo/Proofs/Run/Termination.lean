import Mathlib.Algebra.GroupWithZero.Nat
import Mathlib.Algebra.Order.BigOperators.Group.List
import Mathlib.Algebra.Order.Group.Nat
import Trazo.Proofs.Run.Transition

/-!
Every run ends, within a number of steps that only the program and the limit on statements decide.

The work of a machine counts the steps it can take before a statement is counted again, so it leaves
out what calls and conditions will add. Each of them adds at most the bodies of the procedures and
the branches of the conditions taken together. A statement that may still be counted is therefore
worth that much and one more, and what the machine is worth falls with every step.
-/

namespace Trazo.Run

variable {σ ε : Type}

/-! ### Work that is put off -/

mutual

/-- The work in the branches of the conditions of a statement, put off until they are taken. -/
def deferred : Statement → Nat
  | .loop _ body _ => blockDeferred body
  | .branch _ yes none _ => blockWork yes + blockDeferred yes
  | .branch _ yes (some no) _ =>
    blockWork yes + blockDeferred yes + (blockWork no + blockDeferred no)
  | .command .. | .call .. | .foreign .. => 0

def blockDeferred : Block → Nat
  | [] => 0
  | s :: r => deferred s + blockDeferred r

end

lemma deferred_chosen (holds : Bool) (q : Sensor) (yes : Block) (no : Option Block) (line : Int) :
    blockWork (chosen holds yes no) + blockDeferred (chosen holds yes no) ≤
      deferred (.branch q yes no line) := by
  unfold chosen
  cases no with
  | none => cases holds <;> simp [deferred, blockWork, blockDeferred]
  | some no => cases holds <;> simp [deferred]

/-- No condition in the blocks of the frame puts off more than `bound`. -/
structure Frame.Within (bound : Nat) (f : Frame) : Prop where
  body : blockDeferred f.body ≤ bound
  todo : blockDeferred f.todo ≤ bound

namespace Machine

def Within (bound : Nat) (m : Machine σ) : Prop := ∀ f ∈ m.frames, f.Within bound

/-- What a machine is worth, when a counted statement adds at most `bound` to the work. -/
def worth (bound : Nat) (m : Machine σ) : Nat := m.tally.left * (bound + 1) + m.work

end Machine

/-- The procedures of the code add no more than `bound`. -/
def Code.Within (bound : Nat) (code : Code σ ε) : Prop :=
  ∀ p ∈ code.table, blockWork p.body + blockDeferred p.body ≤ bound

/-! ### One step -/

section Step

variable {code : Code σ ε} {m n : Machine σ} {s : Statement} {b : Block} {bound : Nat}

lemma work_of_fetches (h : Fetches m s n) : m.work = work s + n.work := by
  cases h with
  | mk hf ht =>
    simp only [Machine.work, hf, framesWork, Frame.work, ht, blockWork]
    omega

lemma within_of_fetches (h : Fetches m s n) (hm : m.Within bound) :
    deferred s ≤ bound ∧ n.Within bound := by
  cases h with
  | @mk f below _ rest hf ht =>
    have hf' := hm f (by simp [hf])
    have htodo := hf'.todo
    rw [ht, blockDeferred] at htodo
    refine ⟨by omega, fun g hg => ?_⟩
    rcases List.mem_cons.mp hg with rfl | hg
    · exact ⟨hf'.body, by dsimp only; omega⟩
    · exact hm g (by simp [hf, hg])

lemma work_push (m : Machine σ) (f : Frame) : (m.push f).work = f.work + m.work := rfl

lemma within_push {f : Frame} (hm : m.Within bound) (hf : f.Within bound) :
    (m.push f).Within bound := by
  intro g hg
  rcases List.mem_cons.mp hg with rfl | hg
  · exact hf
  · exact hm g hg

lemma left_of_hasStep (h : Fetches m s n) (hn : m.HasStep) :
    m.tally.left = n.counted.tally.left + 1 := by
  have ht : n.tally = m.tally := by cases h; rfl
  unfold Machine.HasStep at hn
  simp only [Machine.counted, Tally.left, ht]
  omega

/-- A counted statement pays for the block that it puts on the frames. -/
lemma worth_push_lt {p : Machine σ} (hs : Fetches m s n) (hn : m.HasStep)
    (hleft : p.tally.left = n.counted.tally.left) (hwork : p.work ≤ blockWork b + 1 + n.work)
    (hk : work s = 1) (hb : blockWork b ≤ bound) : p.worth bound < m.worth bound := by
  have hm := work_of_fetches hs
  unfold Machine.worth
  rw [left_of_hasStep hs hn, hleft, Nat.add_mul]
  omega

lemma worth_enter {count : Int} {body : Block} {line : Int}
    (hs : Fetches m (.loop count body line) n) (hn : 0 < count) :
    (n.push { body := body, todo := body, again := (count - 1).toNat }).worth bound <
      m.worth bound := by
  have hleft : n.tally.left = m.tally.left := by cases hs; rfl
  have hcount : count.toNat = (count - 1).toNat + 1 := by omega
  have hm := work_of_fetches hs
  unfold Machine.worth
  rw [work_push, hm]
  simp only [Machine.push, hleft, work, Frame.work, hcount, Nat.add_mul]
  omega

lemma worth_branch {q : Sensor} {yes : Block} {no : Option Block} {line : Int} {holds : Bool}
    (hs : Fetches m (.branch q yes no line) n) (hn : m.HasStep) (hm : m.Within bound)
    (hb : chosen holds yes no = b) :
    (if b.isEmpty then n.counted else n.counted.push { body := b, todo := b }).worth bound <
      m.worth bound := by
  have hle := deferred_chosen holds q yes no line
  have hs' := (within_of_fetches hs hm).1
  rw [hb] at hle
  refine worth_push_lt (b := b) hs hn ?_ ?_ rfl (by omega)
  · split <;> rfl
  · split
    · simp only [Machine.work, Machine.counted]
      omega
    · rw [work_push]
      simp [Frame.work, Machine.work, Machine.counted]

/-- **Each step** makes a machine worth less. -/
theorem worth_lt_of_moves (hcode : code.Within bound) (hm : m.Within bound)
    (h : Moves code m n) : n.worth bound < m.worth bound := by
  cases h with
  | @again f below k hf ht ha =>
    simp only [Machine.worth, Machine.work, hf, framesWork, Frame.work, ht, ha, blockWork,
      Nat.add_mul]
    omega
  | @leave f below hf ht ha =>
    have hleft : (if f.procedure.isSome then m.tally.leave else m.tally).left = m.tally.left := by
      split <;> rfl
    simp only [Machine.worth, Machine.work, hf, hleft, framesWork, Frame.work]
    omega
  | pass hs =>
    have hleft : n.tally.left = m.tally.left := by cases hs; rfl
    have hwork := work_of_fetches hs
    simp only [work] at hwork
    simp only [Machine.worth, hleft]
    omega
  | enter hs _ _ hn => exact worth_enter hs hn
  | command hs _ hn =>
    refine worth_push_lt (b := []) hs hn rfl ?_ rfl (by simp [blockWork])
    simp only [Machine.work, Machine.reacted, Machine.commanded, Machine.counted]
    omega
  | @call name line n p hs _ hn hp =>
    have hle := hcode p (List.mem_of_find?_eq_some hp)
    refine worth_push_lt (b := p.body) hs hn rfl ?_ rfl (by omega)
    simp [Machine.work, Machine.called, Machine.counted, framesWork, Frame.work]
  | branch hs _ hn _ hb => exact worth_branch hs hn hm hb

lemma within_of_moves (hcode : code.Within bound) (hm : m.Within bound) (h : Moves code m n) :
    n.Within bound := by
  cases h with
  | @again f below k hf =>
    have hf' := hm f (by simp [hf])
    intro g hg
    rcases List.mem_cons.mp hg with rfl | hg
    · exact ⟨hf'.body, hf'.body⟩
    · exact hm g (by simp [hf, hg])
  | leave hf => exact fun g hg => hm g (by simp [hf, hg])
  | pass hs => exact (within_of_fetches hs hm).2
  | enter hs =>
    obtain ⟨hle, hn⟩ := within_of_fetches hs hm
    exact within_push hn ⟨hle, hle⟩
  | command hs => exact (within_of_fetches hs hm).2
  | @call name line n p hs _ _ hp =>
    have hle := hcode p (List.mem_of_find?_eq_some hp)
    have hbody : blockDeferred p.body ≤ bound := by omega
    exact within_push (within_of_fetches hs hm).2 ⟨hbody, hbody⟩
  | @branch q yes no line n holds b hs _ _ _ hb =>
    obtain ⟨hle, hn⟩ := within_of_fetches hs hm
    have hchosen := deferred_chosen holds q yes no line
    rw [hb] at hchosen
    have hbody : blockDeferred b ≤ bound := by omega
    split
    · exact hn
    · exact within_push hn ⟨hbody, hbody⟩

/-! ### Whole runs -/

/-- Each step of a run is paid for. -/
lemma length_add_worth_le {k : Nat} (hcode : code.Within bound) (hm : m.Within bound)
    (h : Steps code k m n) : k + n.worth bound ≤ m.worth bound := by
  induction h with
  | refl => omega
  | head hs _ ih =>
    have hmove := Machine.moves_of_step hs
    have hlt := worth_lt_of_moves hcode hm hmove
    have hle := ih (within_of_moves hcode hm hmove)
    omega

end Step

namespace Executor

/-- The most that a counted statement of the program can add to the work. -/
def growth (e : Executor) (main : MainBlock) : Nat :=
  blockDeferred main.body + (e.table.map fun p => blockWork p.body + blockDeferred p.body).sum

/-- A number of steps that no run of the main block exceeds. -/
def stepBound (e : Executor) (main : MainBlock) : Nat :=
  e.settings.maxSteps * (e.growth main + 1) + (blockWork main.body + 1)

variable {e : Executor} {main : MainBlock}

lemma within_code (e : Executor) (main : MainBlock) (observe : Observer σ ε) :
    (e.code observe).Within (e.growth main) := by
  intro p hp
  have hle : blockWork p.body + blockDeferred p.body ≤
      (e.table.map fun p => blockWork p.body + blockDeferred p.body).sum :=
    List.single_le_sum (by simp) _ (List.mem_map_of_mem hp)
  unfold growth
  omega

lemma within_machine (e : Executor) (main : MainBlock) (board : Board) (st : σ) :
    (e.machine main board st).Within (e.growth main) := by
  intro f hf
  obtain rfl := List.mem_singleton.mp hf
  have hle : blockDeferred main.body ≤ e.growth main := by
    unfold growth
    omega
  exact ⟨hle, hle⟩

lemma worth_machine (e : Executor) (main : MainBlock) (board : Board) (st : σ) :
    (e.machine main board st).worth (e.growth main) = e.stepBound main := by
  simp [Machine.worth, Machine.work, machine, freshTally, Tally.left, framesWork, Frame.work,
    stepBound]

/-- **Every run ends**: after a number of steps within the bound there is no frame left, or the step
fails, and so does the run. Neither the board nor the observer can make a run longer. -/
theorem run_ends_within_stepBound (hmain : e.program.main = some main) (observe : Observer σ ε)
    (st : σ) (board : Board) :
    (∀ k m, Steps (e.code observe) k (e.machine main board st) m → k ≤ e.stepBound main) ∧
      ∃ k m, Steps (e.code observe) k (e.machine main board st) m ∧
        (m.frames = [] ∧ (e.run observe st board).result = .ok m.tally.steps ∨
          ∃ f last, m.step (e.code observe) = .halt f last ∧
            (e.run observe st board).result = .error f) := by
  constructor
  · intro k m h
    have hle := length_add_worth_le (e.within_code main observe) (e.within_machine main board st) h
    rw [worth_machine] at hle
    omega
  · obtain ⟨k, last, hk, he⟩ := exists_steps_run (e.code observe) (e.machine main board st)
    refine ⟨k, last, hk, ?_⟩
    rw [result_run hmain]
    generalize (e.machine main board st).run (e.code observe) = r at he
    cases he with
    | done hf => exact .inl ⟨hf, rfl⟩
    | halt h => exact .inr ⟨_, _, h, rfl⟩

/-- Two procedures that call each other for ever, one of them from a loop, get no further than the
limit on statements lets them. -/
theorem run_ends_within_stepBound_mutual :
    let main : MainBlock := ⟨[.loop 10 [.call "ida" 2] 1], 1⟩
    let procedures : List Procedure :=
      [⟨"ida", [.branch .isEmpty [.loop 5 [.call "vuelta" 5] 5] (some [.call "ida" 6]) 4], 4⟩,
        ⟨"vuelta", [.call "ida" 9], 8⟩]
    let e : Executor :=
      { program := { main := some main, procedures := procedures }, table := procedures
        speed := .instant, settings := { maxSteps := 50 }, tally := freshTally { maxSteps := 50 } }
    e.stepBound main = 823 ∧
      ∀ (observe : Observer Nat String) (st : Nat) (board : Board),
        (∀ k m, Steps (e.code observe) k (e.machine main board st) m → k ≤ 823) ∧
          ∃ k m, Steps (e.code observe) k (e.machine main board st) m ∧
            (m.frames = [] ∧ (e.run observe st board).result = .ok m.tally.steps ∨
              ∃ f last, m.step (e.code observe) = .halt f last ∧
                (e.run observe st board).result = .error f) := by
  intro main procedures e
  have hbound : e.stepBound main = 823 := rfl
  refine ⟨hbound, fun observe st board => ?_⟩
  rw [← hbound]
  exact run_ends_within_stepBound rfl observe st board

end Executor

end Trazo.Run
