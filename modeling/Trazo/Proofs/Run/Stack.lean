import Trazo.Proofs.Run.Inert
import Trazo.Proofs.Run.Observer

/-!
The machine with its stack of frames runs a program as its meaning says.

A stack of frames stands for what is still to be run: the rest of the pass that the top frame is in,
the passes after it, and then the frames below. Each step of the machine, read backwards, builds up
what the stack stands for, so the end of a run is the outcome of the main block. Whether inert loops
are entered or not makes no difference to it.
-/

namespace Trazo.Run

variable {σ ε : Type} {R : Rules σ ε} {inert : Block → Bool}

/-! ### What a stack of frames stands for -/

/-- The outcome of what is left of a frame: the rest of this pass, then the passes after it. -/
def Frame.Leads (R : Rules σ ε) (f : Frame) (w : World σ) (o : Outcome σ ε) : Prop :=
  (∃ v, Run.Leads R (.block f.todo) w (.done v) ∧ Run.Leads R (.passes f.again f.body) v o) ∨
    ∃ e v, Run.Leads R (.block f.todo) w (.fail e v) ∧ o = .fail e v

/-- Taking a frame away takes away the name of its procedure. -/
def Frame.close (f : Frame) (o : Outcome σ ε) : Outcome σ ε :=
  if f.procedure.isSome then o.leave else o

/-- What the frames make of the outcome of all that was above them. A failure passes through them
and closes each. -/
def Continues (R : Rules σ ε) : List Frame → Outcome σ ε → Outcome σ ε → Prop
  | [], o, last => last = o
  | f :: below, .done w, last => ∃ o, f.Leads R w o ∧ Continues R below (f.close o) last
  | f :: below, .fail e w, last => Continues R below (f.close (.fail e w)) last

lemma Frame.leads_cons {f : Frame} {s : Statement} {rest : Block} {w v : World σ}
    {o : Outcome σ ε} (hs : Run.Leads R (.statement s) w (.done v))
    (h : ({ f with todo := rest } : Frame).Leads R v o) :
    ({ f with todo := s :: rest } : Frame).Leads R w o := by
  rcases h with ⟨u, hu, hp⟩ | ⟨e, u, hu, ho⟩
  · exact .inl ⟨u, .cons hs hu, hp⟩
  · exact .inr ⟨e, u, .cons hs hu, ho⟩

/-- A new frame stands for all passes through its block. -/
lemma Frame.leads_passes {b : Block} {n : Nat} {name : Option String} {w : World σ}
    {o : Outcome σ ε} (h : (⟨b, b, n, name⟩ : Frame).Leads R w o) :
    Run.Leads R (.passes (n + 1) b) w o := by
  rcases h with ⟨v, hv, hp⟩ | ⟨e, v, hv, rfl⟩
  · exact .pass hv hp
  · exact .passFail hv

/-- A new frame for a single pass stands for its block. -/
lemma Frame.leads_block {b : Block} {name : Option String} {w : World σ}
    {o : Outcome σ ε} (h : (⟨b, b, 0, name⟩ : Frame).Leads R w o) :
    Run.Leads R (.block b) w o := by
  rcases h with ⟨v, hv, hp⟩ | ⟨e, v, hv, rfl⟩
  · cases hp
    exact hv
  · exact hv

/-- A statement is run before what is left of its frame. -/
lemma continues_cons {f : Frame} {s : Statement} {rest : Block} {below : List Frame}
    {w : World σ} {o last : Outcome σ ε} (hs : Run.Leads R (.statement s) w o)
    (h : Continues R ({ f with todo := rest } :: below) o last) :
    Continues R ({ f with todo := s :: rest } :: below) (.done w) last := by
  cases o with
  | done v =>
    obtain ⟨o, ho, hb⟩ := h
    exact ⟨o, Frame.leads_cons hs ho, hb⟩
  | fail e v => exact ⟨.fail e v, .inr ⟨e, v, .consFail hs, rfl⟩, h⟩

/-! ### One step -/

/-- The code of a machine that runs by the rules and keeps the boards it shows. -/
def Rules.code (R : Rules σ ε) (inert : Block → Bool) : Code (List Board × σ) ε :=
  { table := R.procedures, maxRepeat := R.settings.maxRepeat
    observe := R.observe.recorded, inert := inert }

namespace Machine

def world (m : Machine (List Board × σ)) : World σ :=
  { board := m.board, steps := m.tally.steps, commands := m.tally.commands
    calls := m.tally.stack, cancelled := m.cancelled, pauses := m.pauses
    seen := m.observer.1, observer := m.observer.2 }

/-- The machine has the limits of the rules. -/
def Obeys (R : Rules σ ε) {τ : Type} (m : Machine τ) : Prop :=
  m.tally.maxSteps = R.settings.maxSteps ∧ m.tally.maxDepth = R.settings.maxDepth

/-- What a step leads to has `last` as its end. -/
def Reaches (R : Rules σ ε) (last : Outcome σ ε) : Next (List Board × σ) ε → Prop
  | .more m => Continues R m.frames (.done m.world) last
  | .halt f m => Continues R m.frames (.fail f m.world) last
  | .done => False

variable {m n : Machine (List Board × σ)} {last : Outcome σ ε}

lemma length_calls_world (m : Machine (List Board × σ)) :
    m.world.calls.length = m.tally.calls.depth := by
  simp [world, Tally.stack, m.tally.calls.depth_eq]

lemma continues_of_notify (h : Reaches R last (notify (R.code inert) m)) :
    Continues R m.frames (m.world.present R) last := by
  simp only [notify, Rules.code, Observer.recorded] at h
  unfold World.present
  cases hr : (R.observe m.observer.2 m.board).raised with
  | none =>
    rw [hr] at h
    simp only [world, hr]
    exact h
  | some f =>
    rw [hr] at h
    simp only [world, hr]
    exact h

/-- A branch that is taken is run, unless it is empty. -/
lemma exists_leads_taken {b : Block}
    (h : Reaches R last (.more (if b.isEmpty then m else m.push { body := b, todo := b }))) :
    ∃ o, Leads R (.block b) m.world o ∧ Continues R m.frames o last := by
  cases b with
  | nil => exact ⟨_, .nil, h⟩
  | cons s r =>
    obtain ⟨o, ho, hb⟩ := h
    exact ⟨o, Frame.leads_block ho, hb⟩

/-- What the machine does with a counted statement is an outcome of it. -/
lemma exists_leads_perform (hm : m.Obeys R) {s : Statement} (hs : isCounted s = true)
    (h : Reaches R last (perform (R.code inert) m s)) :
    ∃ o, Leads R (.counted s) m.world o ∧ Continues R m.frames o last := by
  cases s with
  | command c line =>
    simp only [perform] at h
    split at h
    · exact ⟨_, .refused ‹_›, h⟩
    · rename_i b hb
      exact ⟨_, .command hb, continues_of_notify h⟩
  | call name line =>
    simp only [perform, Rules.code] at h
    split at h
    · exact ⟨_, .unknown ‹_›, h⟩
    · rename_i p hp
      unfold Tally.enter at h
      rw [hm.2, ← length_calls_world] at h
      by_cases hd : R.settings.maxDepth ≤ m.world.calls.length
      · rw [if_pos (by exact_mod_cast hd)] at h
        exact ⟨_, .tooDeep hp hd, h⟩
      · rw [if_neg (by exact_mod_cast hd)] at h
        obtain ⟨o, ho, hb⟩ := h
        refine ⟨_, .call hp (by omega) (o := o) ?_, hb⟩
        simpa [push, world, World.enter, Tally.stack, Calls.push] using Frame.leads_block ho
  | branch q yes no line =>
    simp only [perform] at h
    cases hq : m.board.senses q with
    | error f =>
      rw [hq] at h
      exact ⟨_, .blind hq, h⟩
    | ok holds =>
      rw [hq] at h
      obtain ⟨o, ho, hb⟩ := exists_leads_taken h
      cases holds with
      | true => exact ⟨o, .yes hq ho, hb⟩
      | false =>
        cases no with
        | none =>
          cases ho
          exact ⟨_, .neither hq, hb⟩
        | some b => exact ⟨o, .no hq ho, hb⟩
  | foreign kind line => exact ⟨_, .foreign, h⟩
  | loop count body line => simp [isCounted] at hs

/-- What the machine does with a loop is an outcome of it, whether it enters the loop or not. -/
lemma exists_leads_loop (hi : Hereditary inert) (hc : m.cancelled = false) {count : Int}
    {body : Block} {line : Int}
    (h : Reaches R last (statement (R.code inert) m (.loop count body line))) :
    ∃ o, Leads R (.statement (.loop count body line)) m.world o ∧ Continues R m.frames o last := by
  simp only [statement, hc, Rules.code] at h
  cases hb : inert body with
  | true =>
    refine ⟨_, leads_inert_statement hi hc _ ⟨_, _, _, rfl, hb⟩, ?_⟩
    simp only [hb, Bool.not_true, Bool.and_false] at h
    cases ho : overLimit inert R.settings.maxRepeat (.loop count body line) with
    | none =>
      rw [ho] at h
      exact h
    | some c =>
      rw [ho] at h
      exact h
  | false =>
    simp only [overLimit, hb, Bool.and_false, Bool.not_false, Bool.and_true] at h
    by_cases hn : count > R.settings.maxRepeat
    · rw [if_pos hn] at h
      exact ⟨_, .overLimit hc hn, h⟩
    · rw [if_neg hn] at h
      by_cases hpos : count > 0
      · rw [decide_eq_true hpos] at h
        obtain ⟨o, ho, hb⟩ := h
        have hp := Frame.leads_passes ho
        have he : (count - 1).toNat + 1 = count.toNat := by omega
        rw [he] at hp
        exact ⟨o, .loop hc (by omega) hp, hb⟩
      · rw [decide_eq_false hpos] at h
        have h0 : count.toNat = 0 := by omega
        refine ⟨.done m.world, .loop hc (by omega) ?_, h⟩
        rw [h0]
        exact .noPass

lemma statement_of_step_error {code : Code (List Board × σ) ε} {s : Statement}
    (hs : isCounted s = true) (hc : m.cancelled = false) {f : Fault}
    (ht : m.tally.step (some s.line) = .error f) : statement code m s = m.stop f := by
  unfold statement
  cases s <;> simp_all [isCounted]

lemma statement_of_step_ok {code : Code (List Board × σ) ε} {s : Statement}
    (hs : isCounted s = true) (hc : m.cancelled = false) {t : Tally}
    (ht : m.tally.step (some s.line) = .ok t) :
    statement code m s = perform code { m with tally := t } s := by
  unfold statement
  cases s <;> simp_all [isCounted]

/-- What the machine does with a statement is an outcome of it. -/
lemma exists_leads_statement (hi : Hereditary inert) (hm : m.Obeys R) {s : Statement}
    (h : Reaches R last (statement (R.code inert) m s)) :
    ∃ o, Leads R (.statement s) m.world o ∧ Continues R m.frames o last := by
  cases hc : m.cancelled with
  | true =>
    simp only [statement, hc] at h
    exact ⟨_, .cancelled hc, h⟩
  | false =>
    cases hs : isCounted s with
    | false =>
      cases s with
      | loop count body line => exact exists_leads_loop hi hc h
      | _ => simp [isCounted] at hs
    | true =>
      by_cases hn : R.settings.maxSteps ≤ m.tally.steps
      · have ht : m.tally.step (some s.line) =
            .error (.stepLimit R.settings.maxSteps (some s.line)) := by
          rw [Tally.step, hm.1, if_pos (by exact_mod_cast hn)]
        rw [statement_of_step_error hs hc ht] at h
        exact ⟨_, .exhausted hs hc hn, h⟩
      · have ht : m.tally.step (some s.line) =
            .ok { m.tally with steps := m.tally.steps + 1 } := by
          rw [Tally.step, if_neg (by rw [hm.1]; exact_mod_cast hn)]
        rw [statement_of_step_ok hs hc ht] at h
        obtain ⟨o, ho, hb⟩ := exists_leads_perform
          (m := { m with tally := { m.tally with steps := m.tally.steps + 1 } }) hm hs h
        exact ⟨o, .step hs hc (Nat.lt_of_not_le hn) ho, hb⟩

lemma world_leave (m : Machine (List Board × σ)) :
    ({ m with tally := m.tally.leave } : Machine (List Board × σ)).world = m.world.leave := by
  simp [world, World.leave, Tally.stack, Tally.leave, Calls.pop]

lemma world_endFrame {f : Frame} (below : List Frame) (hf : f.again = 0) :
    (.done (m.endFrame f below).world : Outcome σ ε) = f.close (.done m.world) := by
  unfold endFrame Frame.close
  rw [hf]
  cases f.procedure with
  | none => rfl
  | some name => exact congrArg Outcome.done (world_leave m)

/-- **A step, read backwards**: what the stack stands for after it is what it stood for before. -/
theorem continues_of_step (hi : Hereditary inert) (hm : m.Obeys R)
    (h : Reaches R last (step (R.code inert) m)) : Continues R m.frames (.done m.world) last := by
  unfold step at h
  split at h
  · exact h.elim
  · rename_i f below hf
    rw [hf]
    split at h
    · rename_i ht
      -- the end of a pass
      cases ha : f.again with
      | zero =>
        refine ⟨.done m.world, .inl ⟨m.world, ?_, ?_⟩, ?_⟩
        · rw [ht]
          exact .nil
        · rw [ha]
          exact .noPass
        · rw [← world_endFrame below ha]
          simpa [Reaches, endFrame, ha] using h
      | succ k =>
        simp only [endFrame, ha, Reaches] at h
        obtain ⟨o, ho, hb⟩ := h
        refine ⟨o, .inl ⟨m.world, ?_, ?_⟩, hb⟩
        · rw [ht]
          exact .nil
        · rw [ha]
          exact Frame.leads_passes ho
    · rename_i s rest ht
      obtain ⟨o, ho, hb⟩ := exists_leads_statement
        (m := { m with frames := { f with todo := rest } :: below }) hi hm h
      have := continues_cons ho hb
      rwa [← ht] at this

/-! ### Whole runs -/

/-- A step leads to a machine that has the limits of the rules. -/
def Keeps (R : Rules σ ε) {τ : Type} : Next τ ε → Prop
  | .more m | .halt _ m => m.Obeys R
  | .done => False

lemma keeps_notify {τ : Type} {code : Code τ ε} {m : Machine τ} (hm : m.Obeys R) :
    Keeps R (notify code m) := by
  unfold notify
  dsimp only
  split <;> exact hm

lemma keeps_perform {τ : Type} {code : Code τ ε} {m : Machine τ} (hm : m.Obeys R)
    (s : Statement) : Keeps R (perform code m s) := by
  cases s with
  | command c line =>
    simp only [perform]
    split
    · exact hm
    · exact keeps_notify hm
  | call name line =>
    simp only [perform, Tally.enter]
    split
    · exact hm
    · split <;> rename_i hd <;> split at hd <;> cases hd <;> exact hm
  | branch q yes no line =>
    simp only [perform]
    split
    · exact hm
    · split <;> split <;> exact hm
  | foreign kind line => exact hm
  | loop count body line => exact hm

lemma keeps_statement {τ : Type} {code : Code τ ε} {m : Machine τ} (hm : m.Obeys R)
    (s : Statement) : Keeps R (statement code m s) := by
  unfold statement
  split
  · exact hm
  · split
    · split
      · exact hm
      · split <;> exact hm
    · unfold Tally.step
      split <;> rename_i ht <;> split at ht <;> cases ht
      · exact hm
      · refine keeps_perform ?_ s
        exact hm

lemma keeps_endFrame {τ : Type} {m : Machine τ} (hm : m.Obeys R) (f : Frame)
    (below : List Frame) : (m.endFrame f below).Obeys R := by
  unfold endFrame
  split
  · exact hm
  · unfold Obeys
    dsimp only
    split <;> exact hm

/-- Only an empty stack is done; every other step keeps the limits. -/
lemma step_done_or_keeps {τ : Type} (code : Code τ ε) {m : Machine τ} (hm : m.Obeys R) :
    m.frames = [] ∧ step code m = .done ∨ Keeps R (step code m) := by
  unfold step
  split
  · exact .inl ⟨‹_›, rfl⟩
  · refine .inr ?_
    split
    · exact keeps_endFrame hm _ _
    · refine keeps_statement ?_ _
      exact hm

/-- A machine after all its frames have been left. -/
def settled {τ : Type} (m : Machine τ) : Machine τ := { m with tally := m.unwind }

/-- How a run of the machine ended, as an outcome. -/
def ending (r : Option (Failure ε) × Machine (List Board × σ)) : Outcome σ ε :=
  match r.1 with
  | none => .done r.2.settled.world
  | some f => .fail f r.2.settled.world

/-- A failure leaves the frames one by one. -/
lemma continues_unwind (f : Failure ε) (fs : List Frame) (m : Machine (List Board × σ)) :
    Continues R fs (.fail f m.world) (.fail f { m with frames := fs }.settled.world) := by
  induction fs generalizing m with
  | nil => rfl
  | cons fr below ih =>
    have hw : fr.close (.fail f m.world) =
        (.fail f { m with tally := if fr.procedure.isSome then m.tally.leave else m.tally }.world :
          Outcome σ ε) := by
      unfold Frame.close
      cases fr.procedure with
      | none => rfl
      | some name => exact congrArg (Outcome.fail f) (world_leave m).symm
    simp only [Continues, hw]
    exact ih { m with tally := if fr.procedure.isSome then m.tally.leave else m.tally }

/-- **A run ends in the outcome that its stack stands for.** -/
theorem continues_run (hi : Hereditary inert) (m : Machine (List Board × σ)) (hm : m.Obeys R) :
    Continues R m.frames (.done m.world) (ending (run (R.code inert) m)) ∧
      (run (R.code inert) m).2.Obeys R := by
  induction m using run.induct (R.code inert) with
  | case1 m hs =>
    rcases step_done_or_keeps (R.code inert) hm with ⟨hf, -⟩ | hk
    · have hu : m.unwind = m.tally := by simp [unwind, hf]
      rw [run, hs, hf]
      refine ⟨?_, hm⟩
      simp only [Continues, ending, settled, hu]
    · rw [hs] at hk
      exact hk.elim
  | case2 m f last hs =>
    rcases step_done_or_keeps (R.code inert) hm with ⟨-, hd⟩ | hk
    · cases hs.symm.trans hd
    · rw [hs] at hk
      rw [run, hs]
      refine ⟨continues_of_step hi hm ?_, hk⟩
      rw [hs]
      exact continues_unwind f last.frames last
  | case3 m n hs ih =>
    rcases step_done_or_keeps (R.code inert) hm with ⟨-, hd⟩ | hk
    · cases hs.symm.trans hd
    · rw [hs] at hk
      obtain ⟨h, hl⟩ := ih hk
      rw [run, hs]
      refine ⟨continues_of_step hi hm ?_, hl⟩
      rw [hs]
      exact h

end Machine

end Trazo.Run
