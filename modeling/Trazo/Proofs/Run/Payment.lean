import Trazo.Proofs.Run.Accounting

/-!
What a pass over a block costs.

A pass counts a statement exactly when its block pays: when it holds a command, a call or a
condition, or a loop that runs at least once and whose body pays. While such a pass is not over and
nothing has been counted yet, the frames it has put on the stack, all of them of loops inside the
block, still owe a statement. So every pass over a block that pays has a counted statement of its
own, and the limit on statements is a limit on these passes.

Inert blocks do not pay, but they are not the only ones: a loop may run no time at all.
-/

namespace Trazo

mutual

/-- Whether running the statement counts one. -/
def Statement.pays : Statement → Bool
  | .loop count body _ => decide (0 < count) && blockPays body
  | .command .. | .call .. | .branch .. | .foreign .. => true

/-- Whether a pass over the block counts a statement. -/
def blockPays : Block → Bool
  | [] => false
  | s :: r => s.pays || blockPays r

end

mutual

/-- Whether the statement, if it is a loop, is repeated at least once, like all loops in it. -/
def Statement.repeats : Statement → Bool
  | .loop count body _ => decide (0 < count) && blockRepeats body
  | .command .. | .call .. | .branch .. | .foreign .. => true

def blockRepeats : Block → Bool
  | [] => true
  | s :: r => s.repeats && blockRepeats r

end

mutual

lemma Statement.pays_of_isInert : ∀ s : Statement, s.isInert = true → s.pays = false
  | .loop count body _, h => by
    simp only [Statement.isInert] at h
    simp [Statement.pays, blockPays_of_isInert body h]
  | .command .., h => by simp [Statement.isInert] at h
  | .call .., h => by simp [Statement.isInert] at h
  | .branch .., h => by simp [Statement.isInert] at h
  | .foreign .., h => by simp [Statement.isInert] at h

/-- A pass over an inert block would count nothing. -/
lemma blockPays_of_isInert : ∀ b : Block, blockIsInert b = true → blockPays b = false
  | [], _ => rfl
  | s :: r, h => by
    simp only [blockIsInert, Bool.and_eq_true] at h
    simp [blockPays, Statement.pays_of_isInert s h.1, blockPays_of_isInert r h.2]

end

mutual

lemma Statement.pays_eq_not_isInert : ∀ s : Statement, s.repeats = true → s.pays = !s.isInert
  | .loop count body _, h => by
    simp only [Statement.repeats, Bool.and_eq_true, decide_eq_true_eq] at h
    simp [Statement.pays, Statement.isInert, h.1, blockPays_eq_not_isInert body h.2]
  | .command .., _ | .call .., _ | .branch .., _ | .foreign .., _ => rfl

/-- Of the blocks whose loops all run, only the inert ones do not pay. -/
lemma blockPays_eq_not_isInert : ∀ b : Block, blockRepeats b = true → blockPays b = !blockIsInert b
  | [], _ => rfl
  | s :: r, h => by
    simp only [blockRepeats, Bool.and_eq_true] at h
    simp [blockPays, blockIsInert, Statement.pays_eq_not_isInert s h.1,
      blockPays_eq_not_isInert r h.2]

end

namespace Run

variable {σ ε : Type} {code : Code σ ε} {m n : Machine σ} {f g : Frame} {below above : List Frame}
  {b todo : Block}

/-! ### Inside a pass -/

/-- What is left of the frame will count a statement. -/
def Frame.Pays (f : Frame) : Prop :=
  blockPays f.todo = true ∨ 0 < f.again ∧ blockPays f.body = true

/-- The rest of a pass, or a loop inside it, will count a statement. -/
def Owed (above : List Frame) (todo : Block) : Prop :=
  blockPays todo = true ∨ ∃ g ∈ above, g.Pays

/-- The machine is in a pass of the frame `f`: `todo` is left of it, after the frames `above`, which
run loops inside its block. -/
structure Inside (f : Frame) (below above : List Frame) (todo : Block) (m : Machine σ) : Prop where
  frames : m.frames = above ++ { f with todo := todo } :: below
  size : sizeOf todo ≤ sizeOf f.body
  shorter : above ≠ [] → sizeOf todo < sizeOf f.body
  loops : ∀ g ∈ above, g.procedure = none ∧ sizeOf g.body < sizeOf f.body ∧
    sizeOf g.todo ≤ sizeOf g.body

lemma Frame.pays_of_start (h : f.todo = f.body) : f.Pays ↔ blockPays f.body = true := by
  simp only [Frame.Pays, h]
  exact ⟨fun hp => hp.elim id And.right, .inl⟩

lemma owed_cons : Owed (g :: above) todo ↔ g.Pays ∨ Owed above todo := by
  simp [Owed, or_left_comm]

lemma not_owed_nil : ¬ Owed [] [] := by simp [Owed, blockPays]

/-- At its end a pass owes nothing. -/
lemma Inside.eq_nil (h : Inside f below above todo m)
    (he : m.frames = { f with todo := [] } :: below) : above = [] ∧ todo = [] := by
  have hframes := h.frames.symm.trans he
  have habove : above = [] := by
    have hlength := congrArg List.length hframes
    simp only [List.length_append, List.length_cons] at hlength
    exact List.length_eq_zero_iff.mp (by omega)
  subst habove
  have htop := (List.cons.inj hframes).1
  exact ⟨rfl, congrArg Frame.todo htop⟩

/-- Before the end of a pass, a frame that has come to its own end is that of a loop inside it. -/
lemma Inside.exists_eq_cons {rest : List Frame} (h : Inside f below above todo m)
    (hnot : m.frames ≠ { f with todo := [] } :: below) (hf : m.frames = g :: rest)
    (ht : g.todo = []) :
    ∃ inner, above = g :: inner ∧ rest = inner ++ { f with todo := todo } :: below := by
  have hframes := h.frames.symm.trans hf
  cases above with
  | nil =>
    obtain ⟨rfl, rfl⟩ := List.cons.inj hframes
    obtain rfl : todo = [] := ht
    exact absurd h.frames hnot
  | cons k inner =>
    obtain ⟨rfl, rfl⟩ := List.cons.inj hframes
    exact ⟨inner, rfl, rfl⟩

/-- A statement is taken off the pass or off a loop inside it. -/
lemma Inside.fetches {s : Statement} (h : Inside f below above todo m) (hs : Fetches m s n) :
    ∃ above' todo', Inside f below above' todo' n ∧ sizeOf todo' < sizeOf f.body ∧
      sizeOf s < sizeOf f.body ∧ (Owed above todo ↔ s.pays = true ∨ Owed above' todo') := by
  obtain ⟨hframes, hsize, hshorter, hloops⟩ := h
  cases hs with
  | @mk top rest' _ rest hf ht =>
    rw [hframes] at hf
    cases above with
    | nil =>
      obtain ⟨rfl, rfl⟩ := List.cons.inj hf
      obtain rfl : todo = s :: rest := ht
      have hlt : sizeOf s + sizeOf rest < sizeOf f.body := by
        simp only [List.cons.sizeOf_spec] at hsize
        omega
      refine ⟨[], rest, ⟨rfl, by omega, by simp, by simp⟩, by omega, by omega, ?_⟩
      simp [Owed, blockPays]
    | cons g above =>
      obtain ⟨rfl, rfl⟩ := List.cons.inj hf
      obtain ⟨hproc, hbody, hg⟩ := hloops g (by simp)
      have hlt : sizeOf s + sizeOf rest < sizeOf g.body := by
        rw [ht] at hg
        simp only [List.cons.sizeOf_spec] at hg
        omega
      refine ⟨{ g with todo := rest } :: above, todo, ⟨rfl, hsize, fun _ => hshorter (by simp), ?_⟩,
        hshorter (by simp), by omega, ?_⟩
      · refine List.forall_mem_cons.mpr ⟨⟨hproc, hbody, ?_⟩, fun k hk => hloops k (by simp [hk])⟩
        dsimp only
        omega
      · simp [owed_cons, Frame.Pays, ht, blockPays, or_assoc]

lemma Inside.push {h : Frame} (hm : Inside f below above todo m) (hlt : sizeOf todo < sizeOf f.body)
    (hproc : h.procedure = none) (hbody : sizeOf h.body < sizeOf f.body) (htodo : h.todo = h.body) :
    Inside f below (h :: above) todo (m.push h) := by
  refine ⟨?_, hm.size, fun _ => hlt, List.forall_mem_cons.mpr ⟨⟨hproc, hbody, ?_⟩, hm.loops⟩⟩
  · simp [Machine.push, hm.frames]
  · exact Nat.le_of_eq (congrArg sizeOf htodo)

/-- **A step inside a pass** counts a statement that was owed, or leaves what is owed as it was. -/
theorem Inside.moves (hinert : ∀ b, code.inert b = true → blockPays b = false)
    (h : Inside f below above todo m) (hnot : m.frames ≠ { f with todo := [] } :: below)
    (hm : Moves code m n) :
    (Owed above todo ∧ n.tally.steps = m.tally.steps + 1) ∨
      ∃ above' todo', Inside f below above' todo' n ∧ sizeOf todo' < sizeOf f.body ∧
        n.tally = m.tally ∧ (Owed above todo ↔ Owed above' todo') := by
  cases hm with
  | @again g rest k hf ht ha =>
    obtain ⟨inner, rfl, rfl⟩ := h.exists_eq_cons hnot hf ht
    have hlt := h.shorter (List.cons_ne_nil _ _)
    obtain ⟨hproc, hbody, -⟩ := h.loops g List.mem_cons_self
    refine .inr ⟨_ :: inner, todo, ⟨rfl, h.size, fun _ => hlt, ?_⟩, hlt, rfl, ?_⟩
    · exact List.forall_mem_cons.mpr
        ⟨⟨hproc, hbody, Nat.le_refl _⟩, fun k hk => h.loops k (List.mem_cons_of_mem _ hk)⟩
    · have hend : g.Pays ↔ blockPays g.body = true := by simp [Frame.Pays, ht, ha, blockPays]
      have hstart : ({ g with todo := g.body, again := k } : Frame).Pays ↔
          blockPays g.body = true := Frame.pays_of_start rfl
      rw [owed_cons, owed_cons, hend, hstart]
  | @leave g rest hf ht ha =>
    obtain ⟨inner, rfl, rfl⟩ := h.exists_eq_cons hnot hf ht
    have hlt := h.shorter (List.cons_ne_nil _ _)
    have hproc := (h.loops g List.mem_cons_self).1
    refine .inr ⟨inner, todo, ⟨rfl, h.size, fun _ => hlt, ?_⟩, hlt, by simp [hproc], ?_⟩
    · exact fun k hk => h.loops k (List.mem_cons_of_mem _ hk)
    · rw [owed_cons]
      simp [Frame.Pays, ht, ha, blockPays]
  | @pass count body line _ hs hc ho hskip =>
    obtain ⟨above', todo', hin, hlt, -, howed⟩ := h.fetches hs
    have htally : n.tally = m.tally := by cases hs; rfl
    refine .inr ⟨above', todo', hin, hlt, htally, howed.trans ?_⟩
    have hpays : (Statement.loop count body line).pays = false := by
      rcases hskip with hle | hi
      · simp [Statement.pays, Int.not_lt.mpr hle]
      · simp [Statement.pays, hinert body hi]
    simp [hpays]
  | @enter count body line p hs hc ho hpos hi =>
    obtain ⟨above', todo', hin, hlt, hs', howed⟩ := h.fetches hs
    have htally : p.tally = m.tally := by cases hs; rfl
    have hbody : sizeOf body < sizeOf f.body := by
      simp only [Statement.loop.sizeOf_spec] at hs'
      omega
    refine .inr ⟨_, todo', hin.push hlt rfl hbody rfl, hlt, htally, howed.trans ?_⟩
    rw [owed_cons, Frame.pays_of_start rfl]
    simp [Statement.pays, hpos]
  | @command c line p board hs hc hn hb hr =>
    obtain ⟨above', todo', -, -, -, howed⟩ := h.fetches hs
    exact .inl ⟨howed.mpr (.inl rfl), by cases hs; rfl⟩
  | @call name line p q hs hc hn hp hd =>
    obtain ⟨above', todo', -, -, -, howed⟩ := h.fetches hs
    exact .inl ⟨howed.mpr (.inl rfl), by cases hs; rfl⟩
  | @branch q yes no line p holds b hs hc hn hq hb =>
    obtain ⟨above', todo', -, -, -, howed⟩ := h.fetches hs
    refine .inl ⟨howed.mpr (.inl rfl), ?_⟩
    cases hs
    split <;> rfl

/-! ### One pass -/

/-- The pass of the frame `f` that the machine `m` is in comes to its end in `n`. -/
inductive Pass (code : Code σ ε) (f : Frame) (below : List Frame) : Machine σ → Machine σ → Prop
  | done {n : Machine σ} (hn : n.frames = { f with todo := [] } :: below) : Pass code f below n n
  | step {m n p : Machine σ} (hm : m.frames ≠ { f with todo := [] } :: below)
      (h : m.step code = .more n) (hp : Pass code f below n p) : Pass code f below m p

lemma steps_le_of_moves (h : Moves code m n) : m.tally.steps ≤ n.tally.steps := by
  cases h with
  | again => exact Nat.le_refl _
  | @leave g => cases g.procedure <;> exact Nat.le_refl _
  | pass hs | enter hs => cases hs; exact Nat.le_refl _
  | command hs | call hs => cases hs; exact Nat.le_succ _
  | branch hs =>
    cases hs
    split <;> exact Nat.le_succ _

lemma Pass.steps_le (h : Pass code f below m n) : m.tally.steps ≤ n.tally.steps := by
  induction h with
  | done => exact Nat.le_refl _
  | step _ h _ ih => exact Nat.le_trans (steps_le_of_moves (Machine.moves_of_step h)) ih

/-- What is owed is counted before the pass ends, and nothing else is. -/
lemma Pass.of_inside (hinert : ∀ b, code.inert b = true → blockPays b = false)
    (h : Pass code f below m n) (hin : Inside f below above todo m) :
    (Owed above todo → m.tally.steps < n.tally.steps) ∧
      (¬ Owed above todo → n.tally = m.tally) := by
  induction h generalizing above todo with
  | done hn =>
    obtain ⟨rfl, rfl⟩ := hin.eq_nil hn
    exact ⟨fun howed => absurd howed not_owed_nil, fun _ => rfl⟩
  | step hm h hp ih =>
    rcases hin.moves hinert hm (Machine.moves_of_step h) with
      ⟨howed, hsteps⟩ | ⟨above', todo', hin', -, htally, hiff⟩
    · have hle := hp.steps_le
      exact ⟨fun _ => by omega, fun hnot => absurd howed hnot⟩
    · rw [hiff, ← htally]
      exact ih hin'

/-- **A pass** that comes to its end has counted a statement if its block pays, and else none. -/
theorem Pass.steps_lt_iff (hinert : ∀ b, code.inert b = true → blockPays b = false)
    (hm : m.frames = { f with todo := f.body } :: below) (h : Pass code f below m n) :
    (m.tally.steps < n.tally.steps ↔ blockPays f.body = true) ∧
      (blockPays f.body = false → n.tally = m.tally) := by
  have hin : Inside f below [] f.body m := ⟨hm, Nat.le_refl _, by simp, by simp⟩
  obtain ⟨hlt, heq⟩ := h.of_inside hinert hin
  have howed : Owed [] f.body ↔ blockPays f.body = true := by simp [Owed]
  rw [howed] at hlt heq
  refine ⟨⟨fun hsteps => ?_, hlt⟩, fun hnot => heq (by simp [hnot])⟩
  cases hpays : blockPays f.body with
  | true => rfl
  | false =>
    rw [heq (by simp [hpays])] at hsteps
    exact absurd hsteps (Nat.lt_irrefl _)

/-! ### All passes over a block -/

/-- The machine is at the end of a pass over the block. -/
def Machine.EndsOver (b : Block) (m : Machine σ) : Prop :=
  ∃ f below, m.frames = f :: below ∧ f.todo = [] ∧ f.body = b

/-- The machine is at the start of a pass over the block. -/
def Machine.StartsOver (b : Block) (m : Machine σ) : Prop :=
  ∃ f below, m.frames = f :: below ∧ f.todo = b ∧ f.body = b

lemma not_endsOver_of_todo (hframes : m.frames = f :: below) (htodo : f.todo ≠ []) :
    ¬ m.EndsOver b := by
  rintro ⟨g, rest, hg, hend, -⟩
  obtain ⟨rfl, -⟩ := List.cons.inj (hframes.symm.trans hg)
  exact htodo hend

open Classical in
/-- How many passes over the block have started and not come to their end. -/
noncomputable def Machine.opened (b : Block) (m : Machine σ) : Nat :=
  m.frames.countP fun f => f.body = b

/-- From `m` to `n`, that many passes over the block come to their end. -/
inductive Traverses (code : Code σ ε) (b : Block) : Nat → Machine σ → Machine σ → Prop
  | refl {m : Machine σ} : Traverses code b 0 m m
  | ends {c : Nat} {m n p : Machine σ} (hm : m.EndsOver b) (h : m.step code = .more n)
      (ht : Traverses code b c n p) : Traverses code b (c + 1) m p
  | other {c : Nat} {m n p : Machine σ} (hm : ¬ m.EndsOver b) (h : m.step code = .more n)
      (ht : Traverses code b c n p) : Traverses code b c m p

lemma opened_of_fetches {s : Statement} (h : Fetches m s n) : n.opened b = m.opened b := by
  cases h with
  | mk hf ht => simp [Machine.opened, hf, List.countP_cons]

lemma opened_of_push (hn : n.frames = f :: m.frames) (hf : f.todo = f.body) :
    n.opened b ≤ m.opened b ∨ n.opened b = m.opened b + 1 ∧ n.StartsOver b := by
  by_cases hb : f.body = b
  · refine .inr ⟨?_, f, m.frames, hn, hf.trans hb, hb⟩
    simp [Machine.opened, hn, hb]
  · refine .inl ?_
    simp [Machine.opened, hn, hb]

/-- A step opens at most one pass over the block, and then it is at its start. -/
lemma opened_of_moves (h : Moves code m n) :
    n.opened b ≤ m.opened b ∨ n.opened b = m.opened b + 1 ∧ n.StartsOver b := by
  cases h with
  | again hf ht ha =>
    refine .inl (Nat.le_of_eq ?_)
    simp [Machine.opened, hf, List.countP_cons]
  | leave hf ht ha =>
    refine .inl ?_
    simp [Machine.opened, hf, List.countP_cons]
  | pass hs => exact .inl (Nat.le_of_eq (opened_of_fetches hs))
  | enter hs =>
    rw [← opened_of_fetches hs]
    exact opened_of_push rfl rfl
  | command hs =>
    refine .inl (Nat.le_of_eq ?_)
    rw [← opened_of_fetches hs]
    rfl
  | call hs =>
    rw [← opened_of_fetches hs]
    exact opened_of_push rfl rfl
  | branch hs =>
    rw [← opened_of_fetches hs]
    split
    · exact .inl (Nat.le_refl _)
    · exact opened_of_push rfl rfl

/-- At the end of a pass over the block, the pass is closed or another one starts. -/
lemma opened_of_endsOver (hm : m.EndsOver b) (h : Moves code m n) :
    n.opened b + 1 ≤ m.opened b ∨ n.opened b = m.opened b ∧ n.StartsOver b := by
  obtain ⟨f, below, hframes, htodo, rfl⟩ := hm
  have hfetch : ∀ {s p}, ¬ Fetches m s p := by
    intro s p hs
    cases hs with
    | mk hf ht =>
      obtain ⟨rfl, -⟩ := List.cons.inj (hframes.symm.trans hf)
      rw [htodo] at ht
      cases ht
  cases h with
  | again hf ht ha =>
    obtain ⟨rfl, rfl⟩ := List.cons.inj (hframes.symm.trans hf)
    refine .inr ⟨?_, _, _, rfl, rfl, rfl⟩
    simp [Machine.opened, hf]
  | leave hf ht ha =>
    obtain ⟨rfl, rfl⟩ := List.cons.inj (hframes.symm.trans hf)
    refine .inl (Nat.le_of_eq ?_)
    simp [Machine.opened, hf]
  | pass hs | enter hs | command hs | call hs | branch hs => exact absurd hs hfetch

/-- A pass over the block still owes a statement, and no other pass over it is inside. -/
def Machine.Owing (b : Block) (m : Machine σ) : Prop :=
  ∃ f below above todo, f.body = b ∧ Inside f below above todo m ∧ Owed above todo

lemma owing_of_startsOver (hpays : blockPays b = true) (h : m.StartsOver b) : m.Owing b := by
  obtain ⟨f, below, hframes, htodo, hbody⟩ := h
  have hstart : f = { f with todo := b } := by
    rw [← htodo]
  refine ⟨f, below, [], b, hbody, ⟨?_, ?_, by simp, by simp⟩, .inl hpays⟩
  · exact hframes.trans (congrArg (· :: below) hstart)
  · exact Nat.le_of_eq (congrArg sizeOf hbody.symm)

/-- The `c` passes over the block that have ended and those that are open have a counted statement
each, except for the innermost one, which may owe it. -/
def Covered (b : Block) (c : Nat) (m : Machine σ) : Prop :=
  c + m.opened b ≤ m.tally.steps ∨ c + m.opened b = m.tally.steps + 1 ∧ m.Owing b

lemma Covered.of_le {c : Nat} (hle : c + m.opened b ≤ m.tally.steps + 1)
    (h : c + m.opened b = m.tally.steps + 1 → m.Owing b) : Covered b c m := by
  by_cases heq : c + m.opened b = m.tally.steps + 1
  · exact .inr ⟨heq, h heq⟩
  · exact .inl (by omega)

lemma Covered.le {c : Nat} (h : Covered b c m) : c ≤ m.tally.steps := by
  rcases h with hle | ⟨heq, f, below, above, todo, hf, hin, -⟩
  · omega
  · have hpos : 0 < m.opened b := by
      simp only [Machine.opened, hin.frames, List.countP_append, List.countP_cons, hf, decide_true,
        if_true]
      omega
    omega

/-- A pass inside which the machine is past the start has not just started. -/
lemma Inside.not_startsOver (h : Inside f below above todo m) (hlt : sizeOf todo < sizeOf f.body) :
    ¬ m.StartsOver f.body := by
  rintro ⟨g, rest, hframes, htodo, hbody⟩
  rw [h.frames] at hframes
  cases above with
  | nil =>
    obtain ⟨rfl, -⟩ := List.cons.inj hframes
    have hsize := congrArg sizeOf htodo
    dsimp only at hsize
    omega
  | cons k above =>
    obtain ⟨rfl, -⟩ := List.cons.inj hframes
    have hsmaller := (h.loops k (by simp)).2.1
    rw [hbody] at hsmaller
    exact Nat.lt_irrefl _ hsmaller

/-- A step that ends `d` passes over the block. -/
lemma Covered.moves {c d : Nat} (hinert : ∀ b, code.inert b = true → blockPays b = false)
    (hpays : blockPays b = true) (h : Covered b c m) (hm : Moves code m n)
    (hopened : d + n.opened b ≤ m.opened b ∨ d + n.opened b = m.opened b + 1 ∧ n.StartsOver b) :
    Covered b (c + d) n := by
  -- once the open passes have a counted statement each, a new one may owe its own
  have hpaid (hle : c + m.opened b ≤ n.tally.steps) : Covered b (c + d) n := by
    rcases hopened with hless | ⟨hone, hstarts⟩
    · exact .inl (by omega)
    · exact .of_le (by omega) fun _ => owing_of_startsOver hpays hstarts
  rcases h with hle | ⟨heq, f, below, above, todo, rfl, hin, howed⟩
  · exact hpaid (Nat.le_trans hle (steps_le_of_moves hm))
  · have hnot : m.frames ≠ { f with todo := [] } :: below := by
      intro hframes
      obtain ⟨rfl, rfl⟩ := hin.eq_nil hframes
      exact not_owed_nil howed
    rcases hin.moves hinert hnot hm with ⟨-, hsteps⟩ | ⟨above', todo', hin', hlt, htally, hiff⟩
    · exact hpaid (by omega)
    · have hless : d + n.opened f.body ≤ m.opened f.body :=
        hopened.resolve_right fun hstarts => hin'.not_startsOver hlt hstarts.2
      have howing : n.Owing f.body := ⟨f, below, above', todo', rfl, hin', hiff.mp howed⟩
      rw [← htally] at heq
      exact .of_le (by omega) fun _ => howing

/-- **All passes** over a block that pays are covered, along a whole run. -/
theorem Traverses.covered {c k : Nat} (hinert : ∀ b, code.inert b = true → blockPays b = false)
    (hpays : blockPays b = true) (h : Traverses code b k m n) (hm : Covered b c m) :
    Covered b (c + k) n := by
  induction h generalizing c with
  | refl => exact hm
  | @ends k m n p hends hs ht ih =>
    have hmoves := Machine.moves_of_step hs
    have hopened : 1 + n.opened b ≤ m.opened b ∨
        1 + n.opened b = m.opened b + 1 ∧ n.StartsOver b := by
      simpa only [Nat.add_comm 1, Nat.add_right_cancel_iff] using opened_of_endsOver hends hmoves
    rw [Nat.add_comm k, ← Nat.add_assoc]
    exact ih (hm.moves hinert hpays hmoves hopened)
  | @other k m n p hends hs ht ih =>
    have hmoves := Machine.moves_of_step hs
    have hopened : 0 + n.opened b ≤ m.opened b ∨
        0 + n.opened b = m.opened b + 1 ∧ n.StartsOver b := by
      simpa only [Nat.zero_add] using opened_of_moves hmoves
    exact ih (hm.moves hinert hpays hmoves hopened)

lemma Traverses.exists_steps {k : Nat} (h : Traverses code b k m n) :
    ∃ j, Steps code j m n := by
  induction h with
  | refl => exact ⟨0, .refl⟩
  | ends _ hs _ ih | other _ hs _ ih =>
    obtain ⟨j, hj⟩ := ih
    exact ⟨j + 1, .head hs hj⟩

namespace Executor

variable {e : Executor} {main : MainBlock} {observe : Observer σ ε} {st : σ} {board : Board}

lemma covered_machine (hpays : blockPays b = true) :
    Covered b 0 (e.machine main board st) := by
  have hstart : (e.machine main board st).opened b ≤ 0 ∨
      (e.machine main board st).opened b = 0 + 1 ∧ (e.machine main board st).StartsOver b :=
    opened_of_push (m := { e.machine main board st with frames := [] }) rfl rfl
  rcases hstart with hle | ⟨hone, hstarts⟩
  · exact .inl ((Nat.zero_add _).trans_le hle)
  · exact .inr ⟨(Nat.zero_add _).trans hone, owing_of_startsOver hpays hstarts⟩

/-- **A pass over a block counts a statement** exactly when the block pays, so the limit on steps is
a limit on the passes over such a block. A block that is not inert pays if all its loops are
repeated. -/
theorem passes_pay (e : Executor) (main : MainBlock) (observe : Observer σ ε) (st : σ)
    (board : Board) (b : Block) :
    (blockIsInert b = true → blockPays b = false) ∧
      (blockRepeats b = true → blockIsInert b = false → blockPays b = true) ∧
      (∀ (f : Frame) below (m n : Machine σ), f.body = b →
        m.frames = { f with todo := b } :: below → Pass (e.code observe) f below m n →
          (m.tally.steps < n.tally.steps ↔ blockPays b = true) ∧
          (blockPays b = false → n.tally = m.tally)) ∧
      (blockPays b = true → ∀ c n, Traverses (e.code observe) b c (e.machine main board st) n →
        c ≤ n.tally.steps ∧ n.tally.steps ≤ e.settings.maxSteps) := by
  refine ⟨blockPays_of_isInert b, ?_, ?_, ?_⟩
  · intro hrepeats hinert
    rw [blockPays_eq_not_isInert b hrepeats, hinert]
    rfl
  · rintro f below m n rfl hm hpass
    exact hpass.steps_lt_iff blockPays_of_isInert hm
  · intro hpays c n htraverses
    have hcovered := htraverses.covered blockPays_of_isInert hpays (e.covered_machine hpays)
    obtain ⟨k, hsteps⟩ := htraverses.exists_steps
    obtain ⟨ss, hvisits⟩ := visits_of_steps hsteps .start
    refine ⟨?_, (hvisits.counted (e.counted_machine main board st)).steps_le⟩
    rw [Nat.zero_add] at hcovered
    exact hcovered.le

/-- Two passes over a loop, with two commands in each. -/
theorem passes_pay_nested :
    let body : Block := [.loop 2 [.command (.paint .red) 1] 1]
    let main : MainBlock := ⟨[.loop 2 body 1], 1⟩
    let e : Executor := { program := { main := some main }, table := [], speed := .instant
                          settings := {}, tally := freshTally {} }
    let code : Code Unit String := e.code (.silent Unit String)
    let board : Board := ⟨1, 1, 1, 1, .empty 1 1, .origin, .running⟩
    blockRepeats body = true ∧ blockIsInert body = false ∧
      (∃ f below m n, f.body = body ∧ m.frames = { f with todo := body } :: below ∧
        Pass code f below m n ∧ m.tally.steps < n.tally.steps) ∧
      ∃ n, Traverses code body 2 (e.machine main board ()) n ∧ 2 ≤ n.tally.steps := by
  intro body main e code board
  obtain ⟨-, hpays, hpass, hbound⟩ := passes_pay e main (Observer.silent Unit String) () board body
  have hbody : blockPays body = true := hpays rfl rfl
  have htwo {fs : List Frame} {f : Frame} (hfs : fs.length = 2) : fs ≠ [f] := by
    rintro rfl
    cases hfs
  have hpassed : Pass code { body := body, todo := body } [] { e.machine main board () with
      frames := [{ body := body, todo := body }] } _ :=
    .step (by simp [body]) rfl <| .step (htwo rfl) rfl <| .step (htwo rfl) rfl <|
      .step (htwo rfl) rfl <| .step (htwo rfl) rfl <| .done rfl
  have hmore {m : Machine Unit} {f : Frame} {below : List Frame} {s : Statement} {r : Block}
      (hframes : m.frames = f :: below) (htodo : f.todo = s :: r) : ¬ m.EndsOver body :=
    not_endsOver_of_todo hframes (by simp [htodo])
  have hinner {m : Machine Unit} {f : Frame} {below : List Frame} (hframes : m.frames = f :: below)
      (hbody : f.body = [.command (.paint .red) 1]) : ¬ m.EndsOver body := by
    rintro ⟨g, rest, hg, -, hb⟩
    obtain ⟨rfl, -⟩ := List.cons.inj (hframes.symm.trans hg)
    exact absurd (hbody.symm.trans hb) (by simp [body])
  have htraverses : Traverses code body 2 (e.machine main board ()) _ :=
    .other (hmore rfl rfl) rfl <| .other (hmore rfl rfl) rfl <|
      .other (hmore rfl rfl) rfl <| .other (hinner rfl rfl) rfl <|
      .other (hmore rfl rfl) rfl <| .other (hinner rfl rfl) rfl <|
      .ends ⟨_, _, rfl, rfl, rfl⟩ rfl <| .other (hmore rfl rfl) rfl <|
      .other (hmore rfl rfl) rfl <| .other (hinner rfl rfl) rfl <|
      .other (hmore rfl rfl) rfl <| .other (hinner rfl rfl) rfl <|
      .ends ⟨_, _, rfl, rfl, rfl⟩ rfl .refl
  refine ⟨rfl, rfl, ⟨_, _, _, _, rfl, rfl, hpassed, ?_⟩, _, htraverses, ?_⟩
  · exact (hpass _ _ _ _ rfl rfl hpassed).1.mpr hbody
  · exact (hbound hbody _ _ htraverses).1

/-- A loop that is entered because its block is not inert, and whose three passes count nothing:
all that they do is to pass over a loop of no turns. -/
theorem traverses_without_steps :
    let body : Block := [.loop 0 [.command (.paint .red) 1] 1]
    let main : MainBlock := ⟨[.loop 3 body 1], 1⟩
    let e : Executor := { program := { main := some main }, table := [], speed := .instant
                          settings := {}, tally := freshTally {} }
    let code : Code Unit String := e.code (.silent Unit String)
    ∀ board : Board,
      blockIsInert body = false ∧
        ∃ n, Traverses code body 3 (e.machine main board ()) n ∧ n.tally.steps = 0 := by
  intro body main e code board
  have hmore {m : Machine Unit} {f : Frame} {below : List Frame} {s : Statement} {r : Block}
      (hframes : m.frames = f :: below) (htodo : f.todo = s :: r) : ¬ m.EndsOver body :=
    not_endsOver_of_todo hframes (by simp [htodo])
  have htraverses : Traverses code body 3 (e.machine main board ()) _ :=
    .other (hmore rfl rfl) rfl <|
      .other (hmore rfl rfl) rfl <| .ends ⟨_, _, rfl, rfl, rfl⟩ rfl <|
      .other (hmore rfl rfl) rfl <| .ends ⟨_, _, rfl, rfl, rfl⟩ rfl <|
      .other (hmore rfl rfl) rfl <| .ends ⟨_, _, rfl, rfl, rfl⟩ rfl .refl
  exact ⟨rfl, _, htraverses, rfl⟩

end Executor

end Run

end Trazo
