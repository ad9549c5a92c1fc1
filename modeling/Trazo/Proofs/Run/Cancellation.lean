import Mathlib.Logic.Relation
import Trazo.Proofs.Run.Agreement
import Trazo.Proofs.Run.Transition

/-!
A stop cuts a run before its next statement, and nowhere else.

A run that heeds stops is compared with the run of the same program whose observer never asks for
one. Up to the first request they take the same steps. From there on the stopped machine can only
end passes, and the next statement that it fetches is where it stops.
-/

namespace Trazo.Run

variable {σ ε : Type}

/-! ### Stops that are not heeded -/

/-- The observer that does the same but never asks for a stop. -/
def Observer.patient (observe : Observer σ ε) : Observer σ ε :=
  fun st b => { observe st b with cancels := false }

def Code.patient (code : Code σ ε) : Code σ ε := { code with observe := code.observe.patient }

/-- A stop has been asked for. -/
def Machine.stopped (m : Machine σ) : Machine σ := { m with cancelled := true }

/-- No stop has been asked for. -/
def Machine.calm (m : Machine σ) : Machine σ := { m with cancelled := false }

def Next.calm : Next σ ε → Next σ ε
  | .more m => .more m.calm
  | .done => .done
  | .halt f m => .halt f m.calm

namespace Machine

variable {code : Code σ ε} {m n : Machine σ} {s : Statement}

lemma calm_of_cancelled (h : m.cancelled = false) : m.calm = m := by
  obtain ⟨frames, board, tally, cancelled, pauses, observer⟩ := m
  subst h
  rfl

lemma stopped_of_cancelled (h : m.cancelled = true) : m = m.calm.stopped := by
  obtain ⟨frames, board, tally, cancelled, pauses, observer⟩ := m
  subst h
  rfl

lemma notify_patient (m : Machine σ) (hc : m.cancelled = false) :
    notify code.patient m = (notify code m).calm := by
  unfold notify
  simp only [Code.patient, Observer.patient, hc, Bool.or_false]
  cases (code.observe m.observer m.board).raised <;> rfl

lemma perform_patient (hc : m.cancelled = false) (s : Statement) :
    perform code.patient m s = (perform code m s).calm := by
  obtain ⟨frames, board, tally, cancelled, pauses, observer⟩ := m
  subst hc
  cases s with
  | command c line =>
    simp only [perform]
    cases board.perform c (some line) with
    | error f => rfl
    | ok b => exact notify_patient _ rfl
  | call name line =>
    simp only [perform, Code.patient]
    cases Procedure.find? code.table name with
    | none => rfl
    | some p => cases tally.enter name (some line) <;> rfl
  | branch q yes no line =>
    simp only [perform]
    cases board.senses q with
    | error f => rfl
    | ok holds =>
      dsimp only
      cases (if holds then yes else no.getD []).isEmpty <;> rfl
  | foreign kind line => rfl
  | loop count body line => rfl

lemma statement_patient (hc : m.cancelled = false) (s : Statement) :
    statement code.patient m s = (statement code m s).calm := by
  obtain ⟨frames, board, tally, cancelled, pauses, observer⟩ := m
  subst hc
  have hinert : code.patient.inert = code.inert := rfl
  have hlimit : code.patient.maxRepeat = code.maxRepeat := rfl
  unfold statement
  simp only [hinert, hlimit, Bool.false_eq_true, if_false]
  split
  · rename_i count body line
    split
    · rfl
    · cases decide (count > 0) && !code.inert body <;> rfl
  · split
    · rfl
    · exact perform_patient rfl _

/-- Until a stop is asked for, runs that heed stops and runs that do not take the same steps. -/
lemma step_patient (hc : m.cancelled = false) :
    step code.patient m = (step code m).calm := by
  obtain ⟨frames, board, tally, cancelled, pauses, observer⟩ := m
  subst hc
  unfold step
  dsimp only
  split
  · rfl
  · split
    · unfold endFrame
      split <;> rfl
    · exact statement_patient rfl _

lemma exists_more_of_patient (hc : m.cancelled = false) (h : step code.patient m = .more n) :
    ∃ n', step code m = .more n' ∧ n = n'.calm := by
  rw [step_patient hc] at h
  cases hs : step code m with
  | more n' =>
    rw [hs] at h
    exact ⟨n', rfl, (Next.more.inj h).symm⟩
  | done | halt =>
    rw [hs] at h
    cases h

lemma exists_halt_of_patient {f : Failure ε} (hc : m.cancelled = false)
    (h : step code.patient m = .halt f n) : ∃ n', step code m = .halt f n' ∧ n = n'.calm := by
  rw [step_patient hc] at h
  cases hs : step code m with
  | halt g n' =>
    rw [hs] at h
    cases h
    exact ⟨n', rfl, rfl⟩
  | done | more =>
    rw [hs] at h
    cases h

end Machine

/-! ### From a command to the next statement -/

/-- The machine `n` is `m` after the end of a pass through the block of its top frame. -/
inductive EndsPass : Machine σ → Machine σ → Prop
  | mk {m : Machine σ} {f : Frame} {below : List Frame} (hf : m.frames = f :: below)
      (ht : f.todo = []) : EndsPass m (m.endFrame f below)

/-- The machine `p` is `m` right after its next `k` commands. -/
inductive AfterCommands (code : Code σ ε) : Nat → Machine σ → Machine σ → Prop
  | zero {m : Machine σ} : AfterCommands code 0 m m
  | other {k : Nat} {m n p : Machine σ} (h : m.step code = .more n)
      (hn : n.tally.commands = m.tally.commands) (hp : AfterCommands code (k + 1) n p) :
      AfterCommands code (k + 1) m p
  | command {k : Nat} {m n p : Machine σ} (h : m.step code = .more n)
      (hn : n.tally.commands = m.tally.commands + 1) (hp : AfterCommands code k n p) :
      AfterCommands code (k + 1) m p

lemma AfterCommands.commands {code : Code σ ε} {k : Nat} {m p : Machine σ}
    (h : AfterCommands code k m p) :
    p.tally.commands = m.tally.commands + k := by
  induction h with
  | zero => rfl
  | other _ hn _ ih => rw [ih, hn]
  | command _ hn _ ih =>
    rw [ih, hn]
    omega

lemma AfterCommands.run_eq {code : Code σ ε} {k : Nat} {m p : Machine σ}
    (h : AfterCommands code k m p) :
    m.run code = p.run code := by
  induction h with
  | zero => rfl
  | other hs _ _ ih | command hs _ _ ih => rw [Machine.run_of_more hs, ih]

/-- The reactions of an observer to boards that it is shown one after the other. -/
def Observer.reactions (observe : Observer σ ε) : σ → List Board → List (Reaction σ ε)
  | _, [] => []
  | st, b :: r => observe st b :: observe.reactions (observe st b).state r

namespace Machine

variable {code : Code σ ε} {m n p : Machine σ} {s : Statement}

lemma step_of_endsPass (h : EndsPass m n) : m.step code = .more n := by
  cases h with
  | mk hf ht => rw [step, hf]; simp only [ht]

lemma step_of_fetches (h : Fetches m s n) : m.step code = statement code n s := by
  cases h with
  | mk hf ht => rw [step, hf]; simp only [ht]

/-- A machine has ended, is at the end of a pass, or is about to run a statement. -/
lemma ended_or_endsPass_or_fetches (m : Machine σ) :
    m.frames = [] ∨ (∃ n, EndsPass m n) ∨ ∃ s n, Fetches m s n := by
  cases hf : m.frames with
  | nil => exact .inl rfl
  | cons f below =>
    cases ht : f.todo with
    | nil => exact .inr (.inl ⟨_, .mk hf ht⟩)
    | cons s rest => exact .inr (.inr ⟨s, _, .mk hf ht⟩)

lemma less_of_endsPass (h : EndsPass m n) : Less n m := by
  cases h with
  | mk hf ht => exact less_endFrame hf ht

/-- The end of a pass changes the frames and the calls, and nothing else. -/
lemma exists_eq_of_endsPass (h : EndsPass m n) :
    ∃ fs c, n = { m with frames := fs, tally := { m.tally with calls := c } } := by
  cases h with
  | @mk f below hf ht =>
    unfold endFrame
    split
    · exact ⟨_, m.tally.calls, rfl⟩
    · cases f.procedure with
      | none => exact ⟨_, m.tally.calls, rfl⟩
      | some name => exact ⟨_, m.tally.calls.pop, rfl⟩

end Machine

lemma EndsPass.stopped {m n : Machine σ} (h : EndsPass m n) : EndsPass m.stopped n.stopped := by
  cases h with
  | @mk f below hf ht =>
    have he : (m.endFrame f below).stopped = m.stopped.endFrame f below := by
      unfold Machine.endFrame
      split <;> rfl
    rw [he]
    exact .mk hf ht

lemma Fetches.stopped {m n : Machine σ} {s : Statement} (h : Fetches m s n) :
    Fetches m.stopped s n.stopped := by
  cases h with
  | mk hf ht => exact .mk (m := m.stopped) hf ht

/-- The failure of a run that is stopped before a statement. -/
def stopBefore (s : Statement) : Failure ε := .diagnostic (Fault.cancelled s.line).diagnostic

namespace Machine

open Relation (ReflTransGen)

variable {code : Code σ ε} {m n p : Machine σ} {s : Statement}

/-- A machine that has been asked to stop ends passes like any other, and stops before the next
statement if there is one. -/
lemma run_stopped (code : Code σ ε) (m : Machine σ) :
    (∃ last s n, ReflTransGen EndsPass m last ∧ Fetches last s n ∧
        m.stopped.run code = (some (stopBefore s), n.stopped)) ∨
      ∃ last, ReflTransGen EndsPass m last ∧ last.frames = [] ∧
        m.stopped.run code = (none, last.stopped) := by
  rcases m.ended_or_endsPass_or_fetches with hf | ⟨n, hp⟩ | ⟨s, n, hs⟩
  · exact .inr ⟨m, .refl, hf, run_of_done hf⟩
  · have hless := less_of_endsPass hp
    have hrun : m.stopped.run code = n.stopped.run code :=
      run_of_more (step_of_endsPass hp.stopped)
    rw [hrun]
    rcases run_stopped code n with ⟨last, s, k, hl, hs, hr⟩ | ⟨last, hl, hf, hr⟩
    · exact .inl ⟨last, s, k, .head hp hl, hs, hr⟩
    · exact .inr ⟨last, .head hp hl, hf, hr⟩
  · refine .inl ⟨m, s, n, .refl, hs, run_of_halt ?_⟩
    rw [step_of_fetches hs.stopped]
    rfl
termination_by m.measure
decreasing_by
  rcases hless with h | ⟨he, h⟩
  · exact Prod.Lex.left _ _ h
  · simp only [measure, he]
    exact Prod.Lex.right _ h

lemma run_of_endsPasses (h : ReflTransGen EndsPass m n) : m.run code = n.run code := by
  induction h with
  | refl => rfl
  | tail _ hp ih => rw [ih, run_of_more (step_of_endsPass hp)]

lemma exists_eq_of_endsPasses (h : ReflTransGen EndsPass m n) :
    ∃ fs c, n = { m with frames := fs, tally := { m.tally with calls := c } } := by
  induction h with
  | refl => exact ⟨m.frames, m.tally.calls, rfl⟩
  | tail _ hp ih =>
    obtain ⟨fs, c, rfl⟩ := ih
    obtain ⟨fs', c', rfl⟩ := exists_eq_of_endsPass hp
    exact ⟨fs', c', rfl⟩

/-! ### The cut -/

/-- The run of `start`, which heeds stops, is the run of `m`, which does not, cut after `k`
commands: it stops before the next statement, or ends as the other does, with no statement left or
because the observer raised in that call. -/
inductive Cut (code : Code σ ε) (k : Nat) (start m : Machine σ) : Prop
  | stop {p last n : Machine σ} {s : Statement} (hp : AfterCommands code.patient k m p)
      (hl : ReflTransGen EndsPass p last) (hs : Fetches last s n)
      (hr : start.run code = (some (stopBefore s), n.stopped))
  | finish {p last : Machine σ} (hp : AfterCommands code.patient k m p)
      (hl : ReflTransGen EndsPass p last) (hf : last.frames = [])
      (hr : start.run code = (none, last.stopped))
  | raise {last : Machine σ} {f : Failure ε} (hf : ∃ st b, (code.observe st b).raised = some f)
      (hk : last.tally.commands = m.tally.commands + k)
      (hm : m.run code.patient = (some f, last)) (hr : start.run code = (some f, last.stopped))

/-- A cut that lies ahead is seen from further back. -/
lemma Cut.before {k j : Nat} {start next : Machine σ} (h : Cut code k next n)
    (hrun : start.run code = next.run code) (hpatient : m.run code.patient = n.run code.patient)
    (hk : n.tally.commands + k = m.tally.commands + j)
    (hp : ∀ {p}, AfterCommands code.patient k n p → AfterCommands code.patient j m p) :
    Cut code j start m := by
  cases h with
  | stop hp' hl hs hr => exact .stop (hp hp') hl hs (hrun.trans hr)
  | finish hp' hl hf hr => exact .finish (hp hp') hl hf (hrun.trans hr)
  | raise hf hk' hm hr => exact .raise hf (hk'.trans hk) (hpatient.trans hm) (hrun.trans hr)

/-- A machine that has been asked to stop is cut at once. -/
lemma cut_stopped (code : Code σ ε) (m : Machine σ) : Cut code 0 m.stopped m := by
  rcases run_stopped code m with ⟨last, s, n, hl, hs, hr⟩ | ⟨last, hl, hf, hr⟩
  · exact .stop .zero hl hs hr
  · exact .finish .zero hl hf hr

section Recorded

variable {observe : Observer σ ε} {fine : Code (List Board × σ) ε} {M N : Machine (List Board × σ)}

lemma observe_patient (hfine : fine.observe = observe.recorded) :
    fine.patient.observe = observe.patient.recorded := by
  rw [Code.patient, hfine]
  rfl

/-- The boards that have been shown stay shown. -/
lemma isPrefix_observer_run (hfine : fine.observe = observe.recorded)
    (M : Machine (List Board × σ)) : M.observer.1 <+: (M.run fine).2.observer.1 := by
  refine run_keeps (P := fun m : Machine (List Board × σ) => M.observer.1 <+: m.observer.1)
    ?_ ?_ List.prefix_rfl
  · intro m n hm hq
    rw [hq.observer]
    exact hm
  · intro m n b hm hb
    rw [hb.observer, hfine]
    exact hm.trans (List.prefix_append _ _)

/-- A board is shown: the observer keeps it, and its request is heeded. -/
lemma Shows.recorded {b : Board} (hfine : fine.observe = observe.recorded)
    (hc : M.cancelled = false) (h : Shows fine M b N) :
    N.observer = (M.observer.1 ++ [b], (observe M.observer.2 b).state) ∧
      N.cancelled = (observe M.observer.2 b).cancels := by
  have hobserver := h.observer
  have hcancelled := h.cancelled
  rw [hfine] at hobserver hcancelled
  rw [hc, Bool.false_or] at hcancelled
  exact ⟨hobserver, hcancelled⟩

/-- The first stop that is asked for is where the run is cut. -/
lemma cut_of_reactions (hfine : fine.observe = observe.recorded) (hc : M.cancelled = false)
    {bs : List Board} (hbs : (M.run fine.patient).2.observer.1 = M.observer.1 ++ bs) {k : Nat}
    (hk : ((observe.reactions M.observer.2 bs).map (·.cancels)).findIdx? id = some k) :
    Cut fine (k + 1) M M := by
  induction M using run.induct fine.patient generalizing bs k with
  | case1 M hs =>
    rw [run, hs] at hbs
    obtain rfl : bs = [] := by simpa using hbs
    simp [Observer.reactions] at hk
  | case2 M f last hs =>
    obtain ⟨last, hs', rfl⟩ := exists_halt_of_patient hc hs
    rw [run_of_halt hs] at hbs
    rcases quiet_or_shows_of_halts (halts_of_step hs') with hq | ⟨b, hb, hraise⟩
    · obtain rfl : bs = [] := by simpa [calm, hq.observer] using hbs
      simp [Observer.reactions] at hk
    · obtain ⟨hobserver, hcancelled⟩ := hb.recorded hfine hc
      obtain rfl : bs = [b] := by simpa [calm, hobserver] using hbs.symm
      cases hr : (observe M.observer.2 b).cancels with
      | false => simp [Observer.reactions, hr] at hk
      | true =>
        obtain rfl : k = 0 := by simpa [Observer.reactions, hr] using hk.symm
        rw [stopped_of_cancelled (hcancelled.trans hr)] at hs'
        refine .raise ⟨M.observer, b, hraise⟩ ?_ (run_of_halt hs) (run_of_halt hs')
        exact hb.commands
  | case3 M N hs ih =>
    obtain ⟨N, hs', rfl⟩ := exists_more_of_patient hc hs
    rcases quiet_or_shows_of_moves (moves_of_step hs') with hq | ⟨b, hb, -⟩
    · have hN := hq.cancelled.trans hc
      rw [calm_of_cancelled hN] at hs ih
      rw [run_of_more hs, ← hq.observer] at hbs
      rw [← hq.observer] at hk
      refine (ih hN hbs hk).before (run_of_more hs') (run_of_more hs) ?_ (.other hs hq.commands)
      rw [hq.commands]
    · obtain ⟨hobserver, hcancelled⟩ := hb.recorded hfine hc
      obtain ⟨bs', hbs'⟩ : N.calm.observer.1 <+: (N.calm.run fine.patient).2.observer.1 :=
        isPrefix_observer_run (observe_patient hfine) N.calm
      obtain rfl : bs = b :: bs' := by
        rw [run_of_more hs, ← hbs'] at hbs
        simpa [calm, hobserver] using hbs.symm
      simp only [Observer.reactions, List.map_cons, List.findIdx?_cons] at hk
      cases hr : (observe M.observer.2 b).cancels with
      | true =>
        obtain rfl : k = 0 := by simpa [hr] using hk.symm
        rw [stopped_of_cancelled (hcancelled.trans hr)] at hs'
        refine (cut_stopped fine N.calm).before (run_of_more hs') (run_of_more hs) ?_
          (.command hs hb.commands)
        exact hb.commands
      | false =>
        have hN := hcancelled.trans hr
        rw [calm_of_cancelled hN] at hs ih hbs'
        simp only [hr, id_eq, Bool.false_eq_true, if_false, Option.map_eq_some_iff] at hk
        obtain ⟨k, hk, rfl⟩ := hk
        have hst : N.observer.2 = (observe M.observer.2 b).state := by rw [hobserver]
        rw [← hst] at hk
        refine (ih hN hbs'.symm hk).before (run_of_more hs') (run_of_more hs) ?_
          (.command hs hb.commands)
        rw [hb.commands]
        omega

lemma length_observer_run (hfine : fine.observe = observe.recorded)
    (hM : M.observer.1.length = M.tally.commands) :
    (M.run fine).2.observer.1.length = (M.run fine).2.tally.commands := by
  refine run_keeps
    (P := fun m : Machine (List Board × σ) => m.observer.1.length = m.tally.commands) ?_ ?_ hM
  · intro m n hm hq
    rw [hq.observer, hq.commands]
    exact hm
  · intro m n b hm hb
    rw [hb.observer, hb.commands, hfine, ← hm]
    exact List.length_append

end Recorded

/-- A run that is cut after `k` commands has done `k` commands. -/
lemma Cut.commands {k : Nat} {start : Machine σ} (h : Cut code k start m) :
    (start.run code).2.tally.commands = m.tally.commands + k := by
  cases h with
  | stop hp hl hs hr =>
    obtain ⟨fs, c, rfl⟩ := exists_eq_of_endsPasses hl
    rw [hr, ← hp.commands]
    exact (quiet_of_fetches hs).commands
  | finish hp hl hf hr =>
    obtain ⟨fs, c, rfl⟩ := exists_eq_of_endsPasses hl
    rw [hr, ← hp.commands]
    rfl
  | raise _ hk _ hr =>
    rw [hr, ← hk]
    rfl

/-- What has been shown when a run is cut is part of what the whole run shows. -/
lemma Cut.isPrefix_observer {observe : Observer σ ε} {fine : Code (List Board × σ) ε}
    {start M : Machine (List Board × σ)} {k : Nat} (hfine : fine.observe = observe.recorded)
    (h : Cut fine k start M) :
    (start.run fine).2.observer.1 <+: (M.run fine.patient).2.observer.1 := by
  have hpatient := observe_patient hfine
  cases h with
  | @stop p last n s hp hl hs hr =>
    obtain ⟨fs, c, rfl⟩ := exists_eq_of_endsPasses hl
    have hobserver : n.stopped.observer = p.observer := (quiet_of_fetches hs).observer
    rw [hr, hobserver, hp.run_eq]
    exact isPrefix_observer_run hpatient p
  | @finish p last hp hl hf hr =>
    obtain ⟨fs, c, rfl⟩ := exists_eq_of_endsPasses hl
    rw [hr, hp.run_eq]
    exact isPrefix_observer_run hpatient p
  | raise _ _ hm hr =>
    rw [hr, hm]
    exact List.prefix_rfl

end Machine

/-! ### Whole runs -/

section Map

variable {τ : Type} {g : τ → σ} {fine : Code τ ε} {code : Code σ ε} {m n p : Machine τ} {k : Nat}

lemma Code.MapsTo.patient (h : fine.MapsTo g code) : fine.patient.MapsTo g code.patient := by
  refine ⟨h.table, h.maxRepeat, h.inert, fun st b => ?_⟩
  have ho := h.observe st b
  simp only [Code.patient, Observer.patient, ho]
  rfl

lemma AfterCommands.map (h : fine.MapsTo g code) (ha : AfterCommands fine k m p) :
    AfterCommands code k (m.map g) (p.map g) := by
  have hstep {m n : Machine τ} (hs : m.step fine = .more n) :
      (m.map g).step code = .more (n.map g) := by
    rw [Machine.step_map h, hs]
    rfl
  induction ha with
  | zero => exact .zero
  | other hs hn _ ih => exact .other (hstep hs) hn ih
  | command hs hn _ ih => exact .command (hstep hs) hn ih

lemma EndsPass.map (g : τ → σ) (h : EndsPass m n) : EndsPass (m.map g) (n.map g) := by
  cases h with
  | @mk f below hf ht =>
    have he : (m.endFrame f below).map g = (m.map g).endFrame f below := by
      unfold Machine.endFrame
      split <;> rfl
    rw [he]
    exact .mk hf ht

lemma Fetches.map {s : Statement} (g : τ → σ) (h : Fetches m s n) :
    Fetches (m.map g) s (n.map g) := by
  cases h with
  | mk hf ht => exact .mk (m := m.map g) hf ht

/-- What the observer keeps besides does not matter for a cut. -/
lemma Machine.Cut.map {start : Machine τ} (h : fine.MapsTo g code) (hc : Cut fine k start m) :
    Cut code k (start.map g) (m.map g) := by
  have hlift {p q : Machine τ} (hl : Relation.ReflTransGen EndsPass p q) :
      Relation.ReflTransGen EndsPass (p.map g) (q.map g) :=
    hl.lift (Machine.map g) fun _ _ hp => hp.map g
  cases hc with
  | stop hp hl hs hr =>
    refine .stop (hp.map h.patient) (hlift hl) (hs.map g) ?_
    rw [run_map h, hr]
    rfl
  | finish hp hl hf hr =>
    refine .finish (hp.map h.patient) (hlift hl) hf ?_
    rw [run_map h, hr]
    rfl
  | @raise last f hf hk hm hr =>
    obtain ⟨st, b, hf⟩ := hf
    have hm' : (m.map g).run code.patient = (some f, last.map g) := by rw [run_map h.patient, hm]
    have hr' : (start.map g).run code = (some f, (last.map g).stopped) := by
      rw [run_map h, hr]
      rfl
    refine .raise ⟨g st, b, ?_⟩ hk hm' hr'
    rw [h.observe]
    exact hf

end Map

namespace Executor

/-- The executor without a request to stop. -/
def unstopped (e : Executor) : Executor := { e with cancelled := false }

/-- The call of the observer in which it first asks for a stop, if stops are not heeded. The calls
are counted from one; zero stands for a request that was there before the run. -/
def firstStop? (e : Executor) (observe : Observer σ ε) (st : σ) (board : Board) : Option Nat :=
  let shown := e.unstopped.shown observe.patient st board
  (e.cancelled :: (observe.reactions st shown).map (·.cancels)).findIdx? id

variable {e : Executor} {main : MainBlock} {observe : Observer σ ε} {st : σ} {board : Board}
  {k : Nat}

/-- The run is cut where a stop is first asked for. -/
lemma cut_machine (hmain : e.program.main = some main)
    (hk : e.firstStop? observe st board = some k) :
    Machine.Cut (e.code observe.recorded) k (e.machine main board ([], st))
      (e.unstopped.machine main board ([], st)) := by
  unfold firstStop? at hk
  rw [List.findIdx?_cons] at hk
  cases hc : e.cancelled with
  | true =>
    obtain rfl : k = 0 := by simpa [hc] using hk.symm
    have hstart : e.machine main board (([], st) : List Board × σ) =
        (e.unstopped.machine main board ([], st)).stopped := by
      rw [machine, hc]
      rfl
    rw [hstart]
    exact Machine.cut_stopped _ _
  | false =>
    have hstart : e.machine main board (([], st) : List Board × σ) =
        e.unstopped.machine main board ([], st) := by
      rw [machine, hc]
      rfl
    simp only [hc, id_eq, Bool.false_eq_true, if_false, Option.map_eq_some_iff] at hk
    obtain ⟨k, hk, rfl⟩ := hk
    rw [hstart]
    refine Machine.cut_of_reactions rfl rfl ?_ hk
    have hmain' : e.unstopped.program.main = some main := hmain
    simp only [shown, run, hmain']
    rfl

/-- Board and counts of the machine are those of the executor. -/
lemma counts_run (hmain : e.program.main = some main) {f : Option (Failure ε)} {m : Machine σ}
    (h : (e.machine main board st).run (e.code observe) = (f, m)) :
    (e.run observe st board).board = m.board ∧
      (e.run observe st board).executor.tally.steps = m.tally.steps ∧
      (e.run observe st board).executor.tally.commands = m.tally.commands := by
  obtain ⟨c, hc⟩ := m.exists_unwind_eq
  simp only [run, hmain, h, hc]
  exact ⟨trivial, trivial, trivial⟩

lemma shown_eq (hmain : e.program.main = some main) :
    e.shown observe st board =
      ((e.machine main board ([], st)).run (e.code observe.recorded)).2.observer.1 := by
  simp only [shown, run, hmain]

/-- Whether a stop has been asked for in the end does not matter. -/
lemma run_eq_unstopped (hmain : e.program.main = some main) {f : Option (Failure ε)}
    {m : Machine σ} (h : (e.machine main board st).run (e.code observe) = (f, m.stopped))
    (hu : (e.unstopped.machine main board st).run (e.code observe.patient) = (f, m)) :
    e.run observe st board = e.unstopped.run observe.patient st board := by
  have hmain' : e.unstopped.program.main = some main := hmain
  have hu' : (e.unstopped.machine main board st).run (e.unstopped.code observe.patient) = (f, m) :=
    hu
  simp only [run, hmain, hmain', h, hu']
  rfl

open Relation (ReflTransGen) in
/-- **A stop cuts a run before the next statement, and nowhere else.** Let a stop be asked for first
in call `k` of the observer, or before the run if `k` is zero. Then the run does the first `k`
commands of the run in which stops are not heeded, and shows the same boards. If that one fetches
another statement, the run stops before it, with the counts of that moment and the board that was
left by the command; if it has only passes to end, or the observer raises in that very call, both
runs end alike. No request is left. -/
theorem run_cut_at_first_stop (hmain : e.program.main = some main)
    (hk : e.firstStop? observe st board = some k) :
    (e.run observe st board).executor.tally.commands = k ∧
      e.shown observe st board = (e.unstopped.shown observe.patient st board).take k ∧
      (e.run observe st board).executor.cancelled = false ∧
      ((∃ p last s n,
          AfterCommands (e.code observe.patient) k (e.unstopped.machine main board st) p ∧
          ReflTransGen EndsPass p last ∧ Fetches last s n ∧
          (e.run observe st board).result =
            .error (.diagnostic (Fault.cancelled s.line).diagnostic) ∧
          (e.run observe st board).executor.tally.steps = last.tally.steps ∧
          (e.run observe st board).executor.tally.commands = last.tally.commands ∧
          (e.run observe st board).board = p.board) ∨
        (∃ p last, AfterCommands (e.code observe.patient) k (e.unstopped.machine main board st) p ∧
          ReflTransGen EndsPass p last ∧ last.frames = [] ∧
          e.run observe st board = e.unstopped.run observe.patient st board ∧
          (e.run observe st board).result = .ok last.tally.steps) ∨
        ∃ f st' b, (observe st' b).raised = some f ∧
          e.run observe st board = e.unstopped.run observe.patient st board ∧
          (e.run observe st board).result = .error f) := by
  have hrecorded := cut_machine hmain hk
  have hcut : Machine.Cut (e.code observe) k (e.machine main board st)
      (e.unstopped.machine main board st) :=
    hrecorded.map (code_recorded_mapsTo e observe blockIsInert)
  have hcommands : (e.run observe st board).executor.tally.commands = k := by
    rw [(counts_run hmain rfl).2.2, hcut.commands]
    exact Nat.zero_add k
  refine ⟨hcommands, ?_, ?_, ?_⟩
  · have hlength : (e.shown observe st board).length = k := by
      rw [shown_eq hmain, Machine.length_observer_run rfl rfl, hrecorded.commands]
      exact Nat.zero_add k
    have hpart : e.shown observe st board <+: e.unstopped.shown observe.patient st board := by
      have hmain' : e.unstopped.program.main = some main := hmain
      rw [shown_eq hmain, shown_eq hmain']
      exact hrecorded.isPrefix_observer rfl
    rw [← hlength]
    exact List.prefix_iff_eq_take.mp hpart
  · simp only [run, hmain]
  · cases hcut with
    | @stop p last n s hp hl hs hr =>
      obtain ⟨hboard, hsteps, hcount⟩ := counts_run hmain hr
      refine .inl ⟨p, last, s, n, hp, hl, hs, ?_, ?_, ?_, ?_⟩
      · rw [result_run hmain, hr]
        rfl
      · rw [hsteps]
        cases hs
        rfl
      · rw [hcount]
        exact (Machine.quiet_of_fetches hs).commands
      · obtain ⟨fs, c, rfl⟩ := Machine.exists_eq_of_endsPasses hl
        rw [hboard]
        exact (Machine.quiet_of_fetches hs).board
    | @finish p last hp hl hf hr =>
      have hu : (e.unstopped.machine main board st).run (e.code observe.patient) =
          (none, last) := by
        have hwhole : (e.unstopped.machine main board st).run (e.code observe).patient = _ :=
          hp.run_eq
        rw [Machine.run_of_endsPasses hl, Machine.run_of_done hf] at hwhole
        exact hwhole
      refine .inr (.inl ⟨p, last, hp, hl, hf, run_eq_unstopped hmain hr hu, ?_⟩)
      rw [result_run hmain, hr]
      rfl
    | raise hf hk hm hr =>
      obtain ⟨st', b, hf⟩ := hf
      refine .inr (.inr ⟨_, st', b, hf, run_eq_unstopped hmain hr hm, ?_⟩)
      rw [result_run hmain, hr]

/-- A stop that is asked for in the last pass of a loop takes effect before the next loop, though
that has nothing to do. -/
theorem run_cut_at_first_stop_loop :
    let main : MainBlock := ⟨[.loop 2 [.command (.paint .red) 2] 1, .loop 0 [] 3], 1⟩
    let e : Executor :=
      { program := { main := some main }, table := [], speed := .instant, settings := {}
        tally := freshTally {} }
    let observe : Observer Nat String :=
      fun n b => { state := n + 1, board := b, cancels := n = 1 }
    let board : Board := ⟨1, 1, 1, 1, .empty 1 1, .origin, .running⟩
    e.firstStop? observe 0 board = some 2 ∧
      (e.run observe 0 board).result = .error (.diagnostic (Fault.cancelled 3).diagnostic) ∧
      (e.run observe 0 board).executor.tally.commands = 2 ∧
      e.shown observe 0 board = (e.unstopped.shown observe.patient 0 board).take 2 ∧
      (e.run observe 0 board).executor.cancelled = false := by
  intro main e observe board
  have hk : e.firstStop? observe 0 board = some 2 := by
    -- into the loop, two passes, out of it, past the other loop, and out of the main block
    have hrun : (e.unstopped.machine main board ([], 0)).run (e.code observe.patient.recorded) =
        (none, _) :=
      (Machine.run_of_more rfl).trans ((Machine.run_of_more rfl).trans
        ((Machine.run_of_more rfl).trans ((Machine.run_of_more rfl).trans
          ((Machine.run_of_more rfl).trans ((Machine.run_of_more rfl).trans
            ((Machine.run_of_more rfl).trans (Machine.run_of_done rfl)))))))
    have hmain : e.unstopped.program.main = some main := rfl
    have hshown : e.unstopped.shown observe.patient 0 board = _ :=
      (shown_eq hmain).trans (congrArg (fun r => r.2.observer.1) hrun)
    rw [firstStop?, hshown]
    rfl
  have hresult : (e.run observe 0 board).result =
      .error (.diagnostic (Fault.cancelled 3).diagnostic) := by
    have hrun : (e.machine main board 0).run (e.code observe) =
        (some (.diagnostic (Fault.cancelled 3).diagnostic), _) :=
      (Machine.run_of_more rfl).trans ((Machine.run_of_more rfl).trans
        ((Machine.run_of_more rfl).trans ((Machine.run_of_more rfl).trans
          ((Machine.run_of_more rfl).trans (Machine.run_of_halt rfl)))))
    rw [result_run rfl, hrun]
  obtain ⟨hcommands, hshown, hcancelled, -⟩ := run_cut_at_first_stop rfl hk
  exact ⟨hk, hresult, hcommands, hshown, hcancelled⟩

end Executor

end Trazo.Run
