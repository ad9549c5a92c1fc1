import Trazo.Proofs.Run.Blame
import Trazo.Proofs.Run.CallStack
import Trazo.Proofs.Run.Cancellation

/-!
What the counts of a run stand for.

A run is followed from its start, together with the statements that it starts. At every point the
steps are the statements that have been started, loops apart, and the commands are the calls of the
observer. A statement that finds no step left, or a request to stop, does not start, and leaves all
counts alone. After each command the run pauses, unless the observer raises; only a pause without
end is not made either.
-/

namespace Trazo.Run

variable {σ ε : Type} {code : Code σ ε} {start m n p : Machine σ} {s : Statement}
  {ss : List Statement} {f : Failure ε} {r : Option (Failure ε)}

/-- The statement can start: no stop has been asked for, and a step is left if it needs one. -/
def Machine.MayStart (m : Machine σ) (s : Statement) : Prop :=
  m.cancelled = false ∧ (isCounted s = true → m.HasStep)

/-- The run from `start` comes to `m` when it has started the statements `ss`. The run is over when
there is a failure. -/
inductive Visits (code : Code σ ε) (start : Machine σ) :
    List Statement → Option (Failure ε) → Machine σ → Prop
  | start : Visits code start [] none start
  | passed {ss : List Statement} {m n : Machine σ} (h : Visits code start ss none m)
      (hp : EndsPass m n) : Visits code start ss none n
  | started {ss : List Statement} {s : Statement} {m n p : Machine σ}
      (h : Visits code start ss none m) (hs : Fetches m s p) (hn : m.step code = .more n) :
      Visits code start (ss ++ [s]) none n
  | failed {ss : List Statement} {s : Statement} {m n p : Machine σ} {f : Failure ε}
      (h : Visits code start ss none m) (hs : Fetches m s p) (hm : m.MayStart s)
      (hn : m.step code = .halt f n) : Visits code start (ss ++ [s]) (some f) n
  | refused {ss : List Statement} {s : Statement} {m n p : Machine σ} {f : Failure ε}
      (h : Visits code start ss none m) (hs : Fetches m s p) (hm : ¬ m.MayStart s)
      (hn : m.step code = .halt f n) : Visits code start ss (some f) n

/-! ### What a statement does to the counts -/

lemma Fetches.unique {s' : Statement} {p' : Machine σ} (h : Fetches m s p)
    (h' : Fetches m s' p') : s = s' ∧ p = p' := by
  cases h with
  | mk hf ht =>
    cases h' with
    | mk hf' ht' =>
      obtain ⟨rfl, rfl⟩ := List.cons.inj (hf.symm.trans hf')
      obtain ⟨rfl, rfl⟩ := List.cons.inj (ht.symm.trans ht')
      exact ⟨rfl, rfl⟩

lemma Fetches.todo_ne_nil {g : Frame} {below : List Frame} (h : Fetches m s p)
    (hf : m.frames = g :: below) : g.todo ≠ [] := by
  cases h with
  | mk hf' ht =>
    obtain ⟨rfl, -⟩ := List.cons.inj (hf.symm.trans hf')
    simp [ht]

/-- The counts from `m` to `n`, when the statement `s` has been started. -/
structure Charges (s : Statement) (m n : Machine σ) : Prop where
  steps : n.tally.steps = m.tally.steps + if isCounted s then 1 else 0
  commands : n.tally.commands + m.tally.steps ≤ m.tally.commands + n.tally.steps
  maxSteps : n.tally.maxSteps = m.tally.maxSteps
  hasStep : isCounted s = true → m.HasStep

lemma charges_loop {count : Int} {body : Block} {line : Int}
    (hn : n.tally = m.tally) : Charges (.loop count body line) m n :=
  ⟨by simp [hn, isCounted], by rw [hn], by rw [hn], by simp [isCounted]⟩

lemma charges_counted (hk : isCounted s = true) (hs : m.HasStep)
    (hsteps : n.tally.steps = m.tally.steps + 1)
    (hcommands : n.tally.commands ≤ m.tally.commands + 1)
    (hmax : n.tally.maxSteps = m.tally.maxSteps) : Charges s m n :=
  ⟨by rw [hk]; exact hsteps, by omega, hmax, fun _ => hs⟩

lemma charges_of_moves (hs : Fetches m s p) (h : Moves code m n) : Charges s m n := by
  cases h with
  | again hf ht | leave hf ht => exact absurd ht (hs.todo_ne_nil hf)
  | pass hs' | enter hs' =>
    obtain ⟨rfl, rfl⟩ := hs.unique hs'
    exact charges_loop (by cases hs; rfl)
  | command hs' hc hn =>
    obtain ⟨rfl, rfl⟩ := hs.unique hs'
    cases hs
    exact charges_counted rfl hn rfl (Nat.le_refl _) rfl
  | call hs' hc hn =>
    obtain ⟨rfl, rfl⟩ := hs.unique hs'
    cases hs
    exact charges_counted rfl hn rfl (Nat.le_succ _) rfl
  | branch hs' hc hn =>
    obtain ⟨rfl, rfl⟩ := hs.unique hs'
    cases hs
    split
    all_goals exact charges_counted rfl hn rfl (Nat.le_succ _) rfl

/-- A statement that fails after its start is charged like any other. -/
lemma charges_of_halts (hs : Fetches m s p) (hm : m.MayStart s) (h : Halts code m f n) :
    Charges s m n := by
  cases h with
  | cancelled _ hc =>
    rw [hm.1] at hc
    cases hc
  | exhausted hs' hk _ hn =>
    obtain ⟨rfl, rfl⟩ := hs.unique hs'
    exact absurd (hm.2 hk) hn
  | overLimit hs' =>
    obtain ⟨rfl, rfl⟩ := hs.unique hs'
    exact charges_loop (by cases hs; rfl)
  | raised hs' _ hn =>
    obtain ⟨rfl, rfl⟩ := hs.unique hs'
    cases hs
    exact charges_counted rfl hn rfl (Nat.le_refl _) rfl
  | refused hs' _ hn | unknown hs' _ hn | tooDeep hs' _ hn | blind hs' _ hn | foreign hs' _ hn =>
    obtain ⟨rfl, rfl⟩ := hs.unique hs'
    cases hs
    exact charges_counted rfl hn rfl (Nat.le_succ _) rfl

/-- A statement that does not start changes nothing but the frame that it was taken off. -/
lemma eq_of_refused (hs : Fetches m s p) (hm : ¬ m.MayStart s) (h : Halts code m f n) : n = p := by
  cases h with
  | cancelled hs' | exhausted hs' | overLimit hs' => exact (hs.unique hs').2.symm
  | raised hs' hc hn | refused hs' hc hn | unknown hs' hc hn | tooDeep hs' hc hn
  | blind hs' hc hn | foreign hs' hc hn =>
    obtain ⟨rfl, rfl⟩ := hs.unique hs'
    exact absurd ⟨hc, fun _ => hn⟩ hm

/-- The counts stand for the statements that have been started. -/
structure Counted (limit : Nat) (ss : List Statement) (m : Machine σ) : Prop where
  started : m.tally.steps = ss.countP isCounted
  commands_le : m.tally.commands ≤ m.tally.steps
  steps_le : m.tally.steps ≤ limit
  maxSteps : m.tally.maxSteps = limit

variable {limit : Nat}

lemma Counted.charges (h : Counted limit ss m) (hc : Charges s m n) :
    Counted limit (ss ++ [s]) n := by
  obtain ⟨hstarted, hcommands, hle, hmax⟩ := h
  obtain ⟨hsteps, hcommands', hmax', hstep⟩ := hc
  refine ⟨?_, by omega, ?_, hmax'.trans hmax⟩
  · simp only [List.countP_append, List.countP_singleton, ← hstarted]
    exact hsteps
  · cases hk : isCounted s with
    | false =>
      simp only [hk, Bool.false_eq_true, if_false] at hsteps
      omega
    | true =>
      have hlt := hstep hk
      unfold Machine.HasStep at hlt
      simp only [hk, if_true] at hsteps
      omega

lemma Counted.of_tally (h : Counted limit ss m) (hsteps : n.tally.steps = m.tally.steps)
    (hcommands : n.tally.commands = m.tally.commands)
    (hmax : n.tally.maxSteps = m.tally.maxSteps) : Counted limit ss n :=
  ⟨hsteps.trans h.started, by rw [hsteps, hcommands]; exact h.commands_le,
    by rw [hsteps]; exact h.steps_le, hmax.trans h.maxSteps⟩

/-- **Steps and commands** at every point of a run. -/
theorem Visits.counted (h : Visits code start ss r m) (hstart : Counted limit [] start) :
    Counted limit ss m := by
  induction h with
  | start => exact hstart
  | passed _ hp ih =>
    obtain ⟨fs, c, rfl⟩ := Machine.exists_eq_of_endsPass hp
    exact ih.of_tally rfl rfl rfl
  | started _ hs hn ih => exact ih.charges (charges_of_moves hs (Machine.moves_of_step hn))
  | failed _ hs hm hn ih => exact ih.charges (charges_of_halts hs hm (Machine.halts_of_step hn))
  | refused _ hs hm hn ih =>
    obtain rfl := eq_of_refused hs hm (Machine.halts_of_step hn)
    cases hs
    exact ih.of_tally rfl rfl rfl

/-! ### The limit on steps -/

/-- A run that ends for want of steps, and not because an observer says so, has used them all. The
statement that was refused has changed nothing. -/
lemma exhausted_of_halts {d : Diagnostic} {k : Option Int} (h : Halts code m (.diagnostic d) n)
    (hd : d.kind = .stepLimit k) :
    m.ObserverRaises code (.diagnostic d) ∨
      k = some m.tally.maxSteps ∧ ¬ m.HasStep ∧ ∃ s, isCounted s = true ∧ Fetches m s n := by
  generalize hf : (.diagnostic d : Failure ε) = f at h
  cases h with
  | exhausted hs hk _ hn =>
    obtain rfl := Failure.report_eq_diagnostic hf.symm
    simp only [Fault.diagnostic, Diagnostic.Kind.stepLimit.injEq] at hd
    exact .inr ⟨hd.symm, hn, _, hk, hs⟩
  | raised hs _ _ hb hr => exact .inl ⟨_, _, _, _, hs, hb, hf ▸ hr⟩
  | @refused c line p f =>
    cases f with
    | grid => cases hf
    | refused f =>
      obtain rfl := Failure.report_eq_diagnostic hf.symm
      cases f <;> simp [BoardFault.diagnostic] at hd
  | overLimit | tooDeep =>
    obtain rfl := Failure.report_eq_diagnostic hf.symm
    simp [Fault.diagnostic] at hd
  | cancelled | unknown =>
    cases hf
    simp [Fault.diagnostic] at hd
  | blind | foreign => cases hf

/-! ### The observer and the pauses -/

/-- From the state `st` and the board `b`, an observer has been called `calls` times, each time
after one more command on the board that the call before has left; `calm` of these calls did not
raise. The last call has left another state and board. -/
inductive Watched (observe : Observer σ ε) (st : σ) (b : Board) : Nat → Nat → σ → Board → Prop
  | start : Watched observe st b 0 0 st b
  | calm {calls calm : Nat} {st' : σ} {b' shown : Board} {c : Command} {line : Option Int}
      (h : Watched observe st b calls calm st' b') (hp : b'.perform c line = .ok shown)
      (hr : (observe st' shown).raised = none) :
      Watched observe st b (calls + 1) (calm + 1) (observe st' shown).state
        (observe st' shown).board
  | raised {calls calm : Nat} {st' : σ} {b' shown : Board} {c : Command} {line : Option Int}
      {f : Failure ε} (h : Watched observe st b calls calm st' b')
      (hp : b'.perform c line = .ok shown) (hr : (observe st' shown).raised = some f) :
      Watched observe st b (calls + 1) calm (observe st' shown).state (observe st' shown).board

lemma pauses_of_moves (h : Moves code m n) :
    n.pauses + m.tally.commands = m.pauses + n.tally.commands := by
  cases h with
  | again => rfl
  | @leave f => cases f.procedure <;> rfl
  | pass hs | enter hs | call hs => cases hs; rfl
  | command hs =>
    cases hs
    simp only [Machine.reacted, Machine.commanded, Machine.counted]
    omega
  | branch hs =>
    cases hs
    split <;> rfl

lemma pauses_of_halts (h : Halts code m f n) : n.pauses = m.pauses := by
  cases h with
  | cancelled hs | overLimit hs | exhausted hs | refused hs | raised hs | unknown hs | tooDeep hs
  | blind hs | foreign hs => cases hs; rfl

namespace Executor

variable {e : Executor} {observe : Observer σ ε} {st : σ} {board : Board}

/-- The commands are the calls of the observer, and the run has paused after each that did not
raise, if its pauses have an end. -/
def Paused (e : Executor) (observe : Observer σ ε) (st : σ) (board : Board) (m : Machine σ) :
    Prop :=
  ∃ calm, Watched observe st board m.tally.commands calm m.observer m.board ∧
    m.pauses = if e.pause = .infinite false then 0 else calm

lemma Paused.quiet (h : e.Paused observe st board m) (hq : m.Quiet n)
    (hp : n.pauses = m.pauses) : e.Paused observe st board n := by
  obtain ⟨calm, hwatched, hpauses⟩ := h
  refine ⟨calm, ?_, hp.trans hpauses⟩
  rw [hq.commands, hq.observer, hq.board]
  exact hwatched

/-- The reaction to a board, and the pause after it. -/
lemma Paused.shows {b : Board} (hcode : code.observe = e.paced observe)
    (h : e.Paused observe st board m) (hs : Machine.Shows code m b n)
    (hp : n.pauses = m.pauses + if (code.observe m.observer b).raised = none then 1 else 0) :
    e.Paused observe st board n := by
  obtain ⟨calm, hwatched, hpauses⟩ := h
  obtain ⟨⟨c, line, hperform⟩, hobserver, hboard, -, hcommands⟩ := hs
  have hreaction : code.observe m.observer b = { observe m.observer b with
      raised := (observe m.observer b).raised.or
        (if e.pause = .infinite false then some .endlessPause else none) } := by
    rw [hcode]
    rfl
  unfold Paused
  rw [hcommands, hobserver, hboard, hp, hpauses, hreaction]
  cases hr : (observe m.observer b).raised with
  | some f => exact ⟨calm, .raised hwatched hperform hr, by simp⟩
  | none =>
    -- the call is calm, and whether a pause follows depends on its length alone
    refine ⟨calm + 1, .calm hwatched hperform hr, ?_⟩
    split_ifs <;> simp_all

/-- **Calls of the observer and pauses** at every point of a run. -/
theorem paused_of_visits (hcode : code.observe = e.paced observe) (h : Visits code start ss r m)
    (hstart : e.Paused observe st board start) : e.Paused observe st board m := by
  induction h with
  | start => exact hstart
  | passed _ hp ih =>
    obtain ⟨fs, c, rfl⟩ := Machine.exists_eq_of_endsPass hp
    exact ih.quiet ⟨rfl, rfl, rfl, rfl⟩ rfl
  | started _ hs hn ih =>
    have hmoves := Machine.moves_of_step hn
    have hpauses := pauses_of_moves hmoves
    rcases Machine.quiet_or_shows_of_moves hmoves with hq | ⟨b, hb, hr⟩
    · have hcommands := hq.commands
      exact ih.quiet hq (by omega)
    · have hcommands := hb.commands
      refine ih.shows hcode hb ?_
      rw [if_pos hr]
      omega
  | failed _ hs hm hn ih =>
    have hhalts := Machine.halts_of_step hn
    have hpauses := pauses_of_halts hhalts
    rcases Machine.quiet_or_shows_of_halts hhalts with hq | ⟨b, hb, hr⟩
    · exact ih.quiet hq hpauses
    · refine ih.shows hcode hb ?_
      rw [hr]
      exact hpauses
  | refused _ hs hm hn ih =>
    obtain rfl := eq_of_refused hs hm (Machine.halts_of_step hn)
    exact ih.quiet (Machine.quiet_of_fetches hs) (by cases hs; rfl)

end Executor

/-! ### Whole runs -/

lemma visits_of_steps {k : Nat} (hs : Steps code k m n) (h : Visits code start ss none m) :
    ∃ ss', Visits code start ss' none n := by
  induction hs generalizing ss with
  | refl => exact ⟨ss, h⟩
  | @head k m n p hn _ ih =>
    rcases m.ended_or_endsPass_or_fetches with hf | ⟨q, hq⟩ | ⟨s, q, hq⟩
    · rw [Machine.step, hf] at hn
      cases hn
    · rw [Machine.step_of_endsPass hq] at hn
      obtain rfl := Next.more.inj hn
      exact ih (h.passed hq)
    · exact ih (h.started hq hn)

/-- The end of a run is one of its points. -/
lemma exists_visits_run (code : Code σ ε) (start : Machine σ) :
    ∃ ss, Visits code start ss (start.run code).1 (start.run code).2 := by
  obtain ⟨k, last, hk, hend⟩ := exists_steps_run code start
  obtain ⟨ss, h⟩ := visits_of_steps hk .start
  generalize start.run code = result at hend
  cases hend with
  | done => exact ⟨ss, h⟩
  | halt hn =>
    rcases last.ended_or_endsPass_or_fetches with hf | ⟨q, hq⟩ | ⟨s, q, hq⟩
    · rw [Machine.step, hf] at hn
      cases hn
    · rw [Machine.step_of_endsPass hq] at hn
      cases hn
    · by_cases hm : last.MayStart s
      · exact ⟨_, h.failed hq hm hn⟩
      · exact ⟨_, h.refused hq hm hn⟩

lemma not_moves_of_foreign {kind : String} {line : Int} (hs : Fetches m (.foreign kind line) p) :
    ¬ Moves code m n := by
  intro h
  cases h with
  | again hf ht | leave hf ht => exact hs.todo_ne_nil hf ht
  | pass hs' | enter hs' | command hs' | call hs' | branch hs' => cases (hs.unique hs').1

lemma eq_of_halts_foreign {kind : String} {line : Int} (hs : Fetches m (.foreign kind line) p)
    (hm : m.MayStart (.foreign kind line)) (h : Halts code m f n) : f = .unknownStatement kind := by
  cases h with
  | cancelled _ hc =>
    rw [hm.1] at hc
    cases hc
  | exhausted _ _ _ hn => exact absurd (hm.2 rfl) hn
  | foreign hs' =>
    cases (hs.unique hs').1
    rfl
  | overLimit hs' | refused hs' | raised hs' | unknown hs' | tooDeep hs' | blind hs' =>
    cases (hs.unique hs').1

/-- A statement of no known kind is counted too, but it is the last one of a run. -/
lemma Visits.foreign {kind : String} {line : Int} (h : Visits code start ss r m)
    (hs : .foreign kind line ∈ ss) : r = some (.unknownStatement kind) := by
  induction h with
  | start => simp at hs
  | passed _ _ ih | refused _ _ _ _ ih => cases ih hs
  | started _ hs' hn ih =>
    rcases List.mem_append.mp hs with hmem | hlast
    · cases ih hmem
    · obtain rfl := List.mem_singleton.mp hlast
      exact absurd (Machine.moves_of_step hn) (not_moves_of_foreign hs')
  | failed _ hs' hm hn ih =>
    rcases List.mem_append.mp hs with hmem | hlast
    · cases ih hmem
    · obtain rfl := List.mem_singleton.mp hlast
      exact congrArg some (eq_of_halts_foreign hs' hm (Machine.halts_of_step hn))

/-- The limit on steps is reported at the end of a run only when there is no step left. -/
lemma Visits.stepLimit {d : Diagnostic} {k : Option Int} (hstart : Counted limit [] start)
    (h : Visits code start ss (some (.diagnostic d)) m) (hd : d.kind = .stepLimit k) :
    (∃ ss' last, Visits code start ss' none last ∧ last.ObserverRaises code (.diagnostic d)) ∨
      k = some (limit : Int) ∧ m.tally.steps = limit ∧
        ∃ s last, Visits code start ss none last ∧ isCounted s = true ∧ Fetches last s m ∧
          m.board = last.board ∧ m.tally = last.tally := by
  cases h with
  | failed hv hs hm hn =>
    rcases exhausted_of_halts (Machine.halts_of_step hn) hd with hr | ⟨-, hno, s', hk, hs'⟩
    · exact .inl ⟨_, _, hv, hr⟩
    -- a statement that has started had its step
    · obtain ⟨rfl, -⟩ := hs.unique hs'
      exact absurd (hm.2 hk) hno
  | @refused _ _ last _ _ _ hv hs hm hn =>
    rcases exhausted_of_halts (Machine.halts_of_step hn) hd with hr | ⟨hlimit, hno, s', hk, hs'⟩
    · exact .inl ⟨_, _, hv, hr⟩
    · obtain ⟨-, -, hle, hmax⟩ := hv.counted hstart
      have htally : m.tally = last.tally := by cases hs'; rfl
      refine .inr ⟨by rw [hlimit, hmax], ?_, s', last, hv, hk, hs', by cases hs'; rfl, htally⟩
      simp only [Machine.HasStep, hmax] at hno
      rw [htally]
      omega

namespace Executor

variable {e : Executor} {main : MainBlock} {observe : Observer σ ε} {st : σ} {board : Board}

/-- What the counts say at the point `m` of a run that has started the statements `ss`, and has
ended if there is a failure. -/
structure Accounted (e : Executor) (observe : Observer σ ε) (start : Machine σ)
    (ss : List Statement) (r : Option (Failure ε)) (m : Machine σ) : Prop where
  commands_le : m.tally.commands ≤ m.tally.steps
  steps_le : m.tally.steps ≤ e.settings.maxSteps
  /-- The steps are the statements that have been started, loops apart. -/
  steps_eq : m.tally.steps = ss.countP isCounted
  foreign : ∀ kind line, .foreign kind line ∈ ss → r = some (.unknownStatement kind)
  paused : e.Paused observe start.observer start.board m
  /-- The limit is reported when all steps are used, at a statement that changes nothing. -/
  stepLimit : ∀ d limit, r = some (.diagnostic d) → d.kind = .stepLimit limit →
    (∃ ss' last, Visits (e.code (e.paced observe)) start ss' none last ∧
      last.ObserverRaises (e.code (e.paced observe)) (.diagnostic d)) ∨
    limit = some (e.settings.maxSteps : Int) ∧ m.tally.steps = e.settings.maxSteps ∧
      ∃ s last, Visits (e.code (e.paced observe)) start ss none last ∧ isCounted s = true ∧
        Fetches last s m ∧ m.board = last.board ∧ m.tally = last.tally

lemma counted_machine (e : Executor) (main : MainBlock) (board : Board) (st : σ) :
    Counted e.settings.maxSteps [] (e.machine main board st) :=
  ⟨rfl, Nat.le_refl _, Nat.zero_le _, rfl⟩

lemma accounted_of_visits
    (h : Visits (e.code (e.paced observe)) (e.machine main board st) ss r m) :
    e.Accounted observe (e.machine main board st) ss r m := by
  have hstart := e.counted_machine main board st
  obtain ⟨hstarted, hcommands, hsteps, -⟩ := h.counted hstart
  have hpaused : e.Paused observe st board (e.machine main board st) :=
    ⟨0, .start, by simp [machine]⟩
  refine ⟨hcommands, hsteps, hstarted, fun _ _ hs => h.foreign hs,
    paused_of_visits rfl h hpaused, ?_⟩
  rintro d limit rfl hd
  exact h.stepLimit hstart hd

/-- **The counts of a run** stand for what it has done, at every point of it and at its end. The
steps are the commands, calls and conditions that have been started, and never more than allowed;
the commands are the calls of the observer. A run pauses after each of these calls that does not
raise, unless its pauses have no end: then it never does. -/
theorem run_accounted (hmain : e.program.main = some main) (observe : Observer σ ε) (st : σ)
    (board : Board) :
    let code := e.code (e.paced observe)
    let start := e.machine main board st
    let ended := e.run (e.paced observe) st board
    (∀ ss r m, Visits code start ss r m → e.Accounted observe start ss r m) ∧
      (∀ k m, Steps code k start m → ∃ ss, Visits code start ss none m) ∧
      ∃ ss r m, Visits code start ss r m ∧
        ended.result = (match r with | none => .ok m.tally.steps | some f => .error f) ∧
        ended.executor.tally.steps = m.tally.steps ∧
        ended.executor.tally.commands = m.tally.commands ∧
        ended.board = m.board ∧ ended.observer = m.observer ∧ ended.pauses = m.pauses := by
  intro code start ended
  refine ⟨fun ss r m h => accounted_of_visits h, fun k m h => visits_of_steps h .start, ?_⟩
  obtain ⟨ss, h⟩ := exists_visits_run code start
  obtain ⟨hboard, hsteps, hcommands⟩ := counts_run hmain (show start.run code = (_, _) from rfl)
  refine ⟨ss, _, _, h, ?_, hsteps, hcommands, hboard, ?_, ?_⟩
  · simp only [ended, run, hmain]
    rfl
  · simp only [ended, run, hmain]
    rfl
  · simp only [ended, run, hmain]
    rfl

/-- One step is allowed, and the second pass of a loop needs another. -/
theorem run_accounted_exhausted :
    let main : MainBlock := ⟨[.loop 2 [.command (.paint .red) 2] 1], 1⟩
    let s : Settings := { maxSteps := 1 }
    let e : Executor := { program := { main := some main }, table := [], speed := .instant
                          settings := s, tally := freshTally s }
    let observe : Observer Unit String := .silent Unit String
    let board : Board := ⟨1, 1, 1, 1, .empty 1 1, .origin, .running⟩
    let ended := e.run (e.paced observe) () board
    ended.result = .error (.diagnostic (Fault.stepLimit 1 (some 2)).diagnostic) ∧
      ended.executor.tally.steps = 1 ∧
      ∃ calm, Watched observe () board ended.executor.tally.commands calm ended.observer
        ended.board ∧ ended.pauses = calm := by
  intro main s e observe board ended
  have hpause : e.pause ≠ .infinite false := by decide +kernel
  have hpaced : e.paced observe = observe := paced_of_pause_ne hpause observe
  have hended : ended.result = .error (.diagnostic (Fault.stepLimit 1 (some 2)).diagnostic) := by
    -- into the loop, the command, to the second pass, and no further
    have hrun : (e.machine main board ()).run (e.code observe) =
        (some (Fault.stepLimit 1 (some 2)).failure, _) :=
      (Machine.run_of_more rfl).trans ((Machine.run_of_more rfl).trans
        ((Machine.run_of_more rfl).trans (Machine.run_of_halt rfl)))
    simp only [ended, hpaced]
    rw [result_run rfl, hrun]
    rfl
  obtain ⟨haccounted, -, ss, r, m, hvisits, hresult, hsteps, hcommands, hboard, hobserver,
    hpauses⟩ := run_accounted (e := e) rfl observe () board
  obtain ⟨-, -, -, -, ⟨calm, hwatched, hcalm⟩, hlimit⟩ := haccounted ss r m hvisits
  refine ⟨hended, ?_, calm, ?_, ?_⟩
  · cases r with
    | none => cases hended.symm.trans hresult
    | some f =>
      obtain rfl := Except.error.inj (hended.symm.trans hresult)
      rcases hlimit _ _ rfl rfl with ⟨-, last, -, hraises⟩ | ⟨-, hall, -⟩
      · obtain ⟨n, c, line, b, -, -, hr⟩ := hraises
        simp only [code, hpaced] at hr
        cases hr
      · exact hsteps.trans hall
  · rw [hcommands, hobserver, hboard]
    exact hwatched
  · rw [hpauses, hcalm, if_neg hpause]

/-- A command after which the observer does not raise, and the run does not pause. -/
theorem run_observed_without_pause :
    let main : MainBlock := ⟨[.command (.paint .red) 1], 1⟩
    let s : Settings := { delays := { instant := 10 ^ 320 } }
    let e : Executor := { program := { main := some main }, table := [], speed := .instant
                          settings := s, tally := freshTally s }
    let board : Board := ⟨1, 1, 1, 1, .empty 1 1, .origin, .editing⟩
    let observe : Observer Unit String := .silent Unit String
    let ended := e.run (e.paced observe) () board
    (∀ st b, (observe st b).raised = none) ∧
      ended.executor.tally.commands = 1 ∧ ended.pauses = 0 := by
  intro main s e board observe ended
  have hpause : e.pause = .infinite false := by decide +kernel
  have hpaced : e.paced observe = fun st b =>
      { state := st, board := b, raised := some .endlessPause } := by
    funext st b
    simp only [paced, if_pos hpause]
    rfl
  have hmachine : (e.machine main board ()).run
      (e.code fun st b => { state := st, board := b, raised := some .endlessPause }) =
        (some (.endlessPause : Failure String), _) := Machine.run_of_halt rfl
  simp only [ended, hpaced]
  refine ⟨fun _ _ => rfl, (counts_run rfl hmachine).2.2, ?_⟩
  simp only [run, e, hmachine]
  rfl

end Executor

end Trazo.Run
