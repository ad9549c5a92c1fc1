import Mathlib.Data.List.Permutation
import Trazo.Proofs.Board.Cells
import Trazo.Proofs.Program.Lines
import Trazo.Proofs.Run.Agreement
import Trazo.Proofs.Run.Transition
import Trazo.Session

/-!
How a run leaves its session and the board.

A run that is asked for is refused, rejected with its source text, abandoned before it starts, or
executed and closed. Only the last of these takes the board out of editing, and closing takes it out
of running again, unless the observer has done so.
-/

namespace Trazo.Session

variable {σ ε : Type} {s : Session} {source : String} {speed : Value} {observe : Observer σ ε}
  {st : σ}

/-! ### Source texts -/

/-- The source text is not the text of a program with distinct procedure names. -/
inductive Rejected (s : Settings) (source : String) : Prop
  | lexing {f : LexFault} (h : tokenize source s.maxNumber = .error f) : Rejected s source
  | parsing {tokens : List Token} {f : Program.TokenFault}
      (ht : tokenize source s.maxNumber = .ok tokens)
      (h : Program.ofTokens tokens s.maxNesting = .error f) : Rejected s source
  | procedures {tokens : List Token} {p : Program} {d : DuplicateProcedure}
      (ht : tokenize source s.maxNumber = .ok tokens)
      (hp : Program.ofTokens tokens s.maxNesting = .ok p)
      (h : Procedure.table p.procedures = .error d) : Rejected s source

lemma not_rejected {s : Settings} {tokens : List Token} {p : Program} {table : List Procedure}
    (ht : tokenize source s.maxNumber = .ok tokens)
    (hp : Program.ofTokens tokens s.maxNesting = .ok p)
    (htable : Procedure.table p.procedures = .ok table) : ¬ Rejected s source := by
  rintro (h | ⟨ht', h⟩ | ⟨ht', hp', h⟩)
  · rw [ht] at h
    cases h
  · rw [ht] at ht'
    obtain rfl := Except.ok.inj ht'
    rw [hp] at h
    cases h
  · rw [ht] at ht'
    obtain rfl := Except.ok.inj ht'
    rw [hp] at hp'
    obtain rfl := Except.ok.inj hp'
    rw [htable] at h
    cases h

lemma exists_tokens_of_ofSource {limit cap : Nat} {p : Program}
    (h : Program.ofSource source limit cap = .ok p) :
    ∃ tokens, tokenize source limit = .ok tokens ∧ Program.ofTokens tokens cap = .ok p := by
  unfold Program.ofSource at h
  cases ht : tokenize source limit with
  | error f =>
    rw [ht] at h
    cases h
  | ok tokens =>
    rw [ht] at h
    exact ⟨tokens, rfl, of_mapError h⟩

lemma rejected_of_ofSource {s : Settings} {f : Program.SourceFault}
    (h : Program.ofSource source s.maxNumber s.maxNesting = .error f) : Rejected s source := by
  unfold Program.ofSource at h
  cases ht : tokenize source s.maxNumber with
  | error f => exact .lexing ht
  | ok tokens =>
    cases htokens : Program.ofTokens tokens s.maxNesting with
    | error e => exact .parsing ht htokens
    | ok p =>
      simp only [ht, htokens] at h
      cases h

/-- A source text is rejected with a diagnostic about one of its lines, if limits and lines can be
written, or it is a program on these lines that can be run. The host has no part in this. -/
lemma compile_cases (s : Settings) (source : String) :
    (Rejected s source ∧
      ((∃ d, (∀ ε, (compile s source : Except (Failure ε) _) = .error (.diagnostic d)) ∧
        d.IsOn (linesOf source)) ∨
      (∃ d, ∀ ε, (compile s source : Except (Failure ε) _) = .error (.unwritable d)) ∧
        ¬ Program.Tellable source s.maxNumber s.maxNesting)) ∨
      ¬ Rejected s source ∧ ∃ p main, (∀ ε, (compile s source : Except (Failure ε) _) = .ok p) ∧
        p.main = some main ∧ p.names.Nodup ∧ p.StandsOn (linesOf source) ∧ p.Countable := by
  unfold compile
  rcases Program.ofSource_cases source s.maxNumber s.maxNesting with
    ⟨p, main, hp, hmain, hstands, hcount⟩ | ⟨f, hf, hfail⟩
  · simp only [hp, Except.mapError, bind, Except.bind]
    obtain ⟨tokens, ht, htokens⟩ := exists_tokens_of_ofSource hp
    cases htable : Procedure.table p.procedures with
    | error d =>
      have hline := (hstands.procedures _ (Procedure.mem_of_table_eq_error htable)).1
      exact .inl ⟨.procedures ht htokens htable,
        .inl ⟨d.diagnostic, fun _ => rfl, _, hline, rfl⟩⟩
    | ok table =>
      exact .inr ⟨not_rejected ht htokens htable, p, main, fun _ => rfl, hmain,
        (Procedure.table_eq_ok_iff.mp htable).2, hstands, hcount⟩
  · refine .inl ⟨rejected_of_ofSource hf, hfail.imp ?_ ?_⟩
    · rintro ⟨d, hd⟩
      refine ⟨d, fun ε => ?_, hd.line⟩
      simp only [hf, Except.mapError, hd.failure]
      rfl
    · rintro ⟨⟨d, hd⟩, hno⟩
      refine ⟨⟨d, fun ε => ?_⟩, hno⟩
      simp only [hf, Except.mapError, hd]
      rfl

lemma prepare_of_compile_error {s : Settings} {f : Failure ε} (h : compile s source = .error f) :
    prepare s source speed = .error f := by
  rw [prepare, h]
  rfl

lemma prepare_of_compile {s : Settings} {p : Program} {main : MainBlock}
    {chosen : Speed × List Log.Record}
    (h : (compile s source : Except (Failure ε) _) = .ok p) (hmain : p.main = some main)
    (hnames : p.names.Nodup) (hspeed : Speed.resolve s.speed speed = .ok chosen) :
    (prepare s source speed : Except (Failure ε) _) = .ok
      ({ program := p, table := p.procedures, speed := chosen.1, settings := s
         tally := Run.Executor.freshTally s }, chosen.2) := by
  rw [prepare, h]
  exact Run.Executor.create_eq hmain hnames hspeed

/-- With a speed that is accepted, only the source text decides whether there is a run. -/
lemma prepare_cases (ε : Type) {s : Settings} {chosen : Speed × List Log.Record}
    (hspeed : Speed.resolve s.speed speed = .ok chosen) (source : String) :
    (Rejected s source ∧
      ((∃ d, (prepare s source speed : Except (Failure ε) _) = .error (.diagnostic d)) ∨
      (∃ d, (prepare s source speed : Except (Failure ε) _) = .error (.unwritable d)) ∧
        ¬ Program.Tellable source s.maxNumber s.maxNesting)) ∨
      ¬ Rejected s source ∧ ∃ e, (prepare s source speed : Except (Failure ε) _) = .ok e := by
  rcases compile_cases s source with ⟨hr, hfail⟩ | ⟨hr, p, main, hc, hmain, hnames, -⟩
  · refine .inl ⟨hr, hfail.imp ?_ ?_⟩
    · exact fun ⟨d, hd, _⟩ => ⟨d, prepare_of_compile_error (hd ε)⟩
    · exact fun ⟨⟨d, hd⟩, hno⟩ => ⟨⟨d, prepare_of_compile_error (hd ε)⟩, hno⟩
  · exact .inr ⟨hr, _, prepare_of_compile (hc ε) hmain hnames hspeed⟩

/-- The executor of a source text whose program is known. -/
lemma prepare_of_source {s : Settings} {p : Program} {main : MainBlock}
    {chosen : Speed × List Log.Record}
    (hp : Program.ofSource source s.maxNumber s.maxNesting = .ok p) (hmain : p.main = some main)
    (hnames : p.names.Nodup) (hspeed : Speed.resolve s.speed speed = .ok chosen) :
    (prepare s source speed : Except (Failure ε) _) = .ok
      ({ program := p, table := p.procedures, speed := chosen.1, settings := s
         tally := Run.Executor.freshTally s }, chosen.2) := by
  have htable : Procedure.table p.procedures = .ok p.procedures :=
    Procedure.table_eq_ok_iff.mpr ⟨rfl, hnames⟩
  have hcompile : (compile s source : Except (Failure ε) _) = .ok p := by
    rw [compile, hp]
    simp only [Except.mapError, bind, Except.bind, htable]
    rfl
  exact prepare_of_compile hcompile hmain hnames hspeed

/-! ### Closing a run -/

/-- Whether an outcome is a successful result. -/
def succeeds : Except (Failure ε) Run.Result → Bool
  | .ok r => r.success
  | .error _ => false

/-- The phase in which a run with this outcome leaves the board. -/
def lastPhase (outcome : Except (Failure ε) Run.Result) : Phase :=
  if succeeds outcome then .finished else .failed

/-- What is remembered of an outcome, with the board that the run has left. -/
def Memory.recorded (m : Memory) (b : Board) : Except (Failure ε) Run.Result → Memory
  | .ok r => { m with final := if r.success then some b.snapshot else m.final, last := some r }
  | .error _ => m

/-- The session after a run with this outcome. -/
def closed (s : Session) (outcome : Except (Failure ε) Run.Result) : Session :=
  let b := { s.board with phase := lastPhase outcome }
  { s with board := b, memory := s.memory.recorded b outcome }

@[simp] lemma phase_closed (s : Session) (outcome : Except (Failure ε) Run.Result) :
    (s.closed outcome).board.phase = lastPhase outcome := rfl

@[simp] lemma initial_closed (s : Session) (outcome : Except (Failure ε) Run.Result) :
    (s.closed outcome).memory.initial = s.memory.initial := by
  cases outcome <;> rfl

@[simp] lemma startHead_closed (s : Session) (outcome : Except (Failure ε) Run.Result) :
    (s.closed outcome).memory.startHead = s.memory.startHead := by
  cases outcome <;> rfl

lemma final_closed (s : Session) (outcome : Except (Failure ε) Run.Result) :
    (s.closed outcome).memory.final =
      if succeeds outcome then some (s.closed outcome).board.snapshot else s.memory.final := by
  cases outcome <;> rfl

lemma running_allows_lastPhase (outcome : Except (Failure ε) Run.Result) :
    Phase.allows .running (lastPhase outcome) = true := by
  unfold lastPhase
  cases succeeds outcome <;> rfl

lemma conclude_eq_settle (s : Session) (outcome : Except (Failure ε) Run.Result) :
    s.conclude outcome = s.settle (lastPhase outcome)
      (fun t => { t with memory := t.memory.recorded t.board outcome }) outcome := by
  cases outcome with
  | error f => rfl
  | ok r =>
    obtain ⟨success, steps, commands, error⟩ := r
    cases success <;> rfl

/-- A run is closed with its outcome, or the board is not running and refuses. -/
lemma conclude_cases (s : Session) (outcome : Except (Failure ε) Run.Result) :
    s.conclude outcome = (outcome, s.closed outcome) ∨
      s.board.phase ≠ .running ∧ ∃ d, s.conclude outcome = (.error (.diagnostic d), s) := by
  rw [conclude_eq_settle, settle, Board.transition]
  cases h : s.board.phase.allows (lastPhase outcome) with
  | true => exact .inl rfl
  | false =>
    -- only a board that the observer has taken out of running gets here
    refine .inr ⟨fun hp => ?_, _, rfl⟩
    rw [hp, running_allows_lastPhase] at h
    cases h

/-! ### All that a run can come to -/

/-- The session when a run is asked for: it has the look of the board now, and no last look. -/
def opened (s : Session) : Session :=
  { s with memory := { s.memory with
      initial := some s.board.snapshot, final := none, startHead := some s.board.head } }

/-- The result of a run that is rejected. -/
def rejection (d : Diagnostic) : Run.Result := { success := false, steps := 0, error := some d }

/-- What an executor makes of the board, and of what the session remembers. -/
def executed (s : Session) (e : Run.Executor) (observe : Observer σ ε) (st : σ) :
    Run.Executor.Ended (σ × Memory) ε :=
  e.run (e.paced (watch s.settings observe)) (st, { s.opened.memory with started := true })
    { s.board with phase := .running }

/-- The session in which a run has been executed and is still open. -/
def executing (s : Session) (e : Run.Executor) (observe : Observer σ ε) (st : σ) : Session :=
  { s with
    board := (s.executed e observe st).board
    memory := (s.executed e observe st).observer.2 }

/-- The four ways in which a run ends. -/
inductive Ends (s : Session) (source : String) (speed : Value) (observe : Observer σ ε) (st : σ) :
    Ended σ ε → Prop
  | refused (hp : s.board.phase ≠ .editing) :
      Ends s source speed observe st
        { result := .error (.diagnostic (notEditing s.board.phase)), session := s, observer := st }
  | rejected {d : Diagnostic} (hp : s.board.phase = .editing)
      (h : (prepare s.settings source speed : Except (Failure ε) _) = .error (.diagnostic d)) :
      Ends s source speed observe st
        { result := .ok (rejection d)
          session := { s.opened with memory := { s.opened.memory with last := some (rejection d) } }
          observer := st, logs := [compilationFailed d] }
  | abandoned {f : Failure ε} (hp : s.board.phase = .editing)
      (h : prepare s.settings source speed = .error f) (hf : f.diagnostic? = none) :
      Ends s source speed observe st { result := .error f, session := s.opened, observer := st }
  | executed {e : Run.Executor} {logs : List Log.Record} (hp : s.board.phase = .editing)
      (h : (prepare s.settings source speed : Except (Failure ε) _) = .ok (e, logs)) :
      Ends s source speed observe st
        { result := ((s.executing e observe st).conclude (s.executed e observe st).outcome).1
          session := ((s.executing e observe st).conclude (s.executed e observe st).outcome).2
          observer := (s.executed e observe st).observer.1
          pauses := (s.executed e observe st).pauses
          logs := logs ++ (s.executed e observe st).logs }

/-- **Every run** ends in one of these ways. -/
theorem ends_run (s : Session) (source : String) (speed : Value) (observe : Observer σ ε) (st : σ) :
    Ends s source speed observe st (s.run source speed observe st) := by
  unfold run
  by_cases hp : s.board.phase = .editing
  · have hstart : s.board.startRun = .ok { s.board with phase := .running } := by
      simp [Board.startRun, Board.transition, hp, Phase.allows]
    simp only [hp, ne_eq, not_true_eq_false, if_false]
    cases h : (prepare s.settings source speed : Except (Failure ε) _) with
    | ok made =>
      simp only [hstart]
      exact .executed hp h
    | error f =>
      cases f with
      | diagnostic d => exact .rejected hp h
      | integer | unwritable | noCount | noEnd | unknownStatement | grid | endlessPause | raised =>
        exact .abandoned hp h rfl
  · simp only [hp, ne_eq, not_false_eq_true, if_true]
    exact .refused hp

/-! ### Observers that only watch -/

/-- The observer leaves the session as it is. It may ask for a stop, and it may raise. -/
def Observer.Watches (observe : Observer σ ε) : Prop := ∀ st s, (observe st s).session = s

lemma phase_of_perform {b shown : Board} {c : Command} {line : Option Int}
    (h : b.perform c line = .ok shown) : shown.phase = b.phase := by
  obtain ⟨d, -, -, rfl⟩ | ⟨ink, -, rfl⟩ := Board.perform_cases h <;> rfl

/-- Until it is closed, a run keeps the board running and leaves alone what is remembered. -/
lemma executed_of_watches (hw : observe.Watches) (s : Session) (e : Run.Executor) (st : σ) :
    (s.executed e observe st).board.phase = .running ∧
      (s.executed e observe st).observer.2 = { s.opened.memory with started := true } := by
  refine Run.Executor.run_keeps (I := fun (st : σ × Memory) b =>
    b.phase = .running ∧ st.2 = { s.opened.memory with started := true }) ?_ ⟨rfl, rfl⟩
  rintro ⟨st, m⟩ b c line shown ⟨hphase, hmemory⟩ hperform
  have hsession := hw st { board := shown, settings := s.settings, memory := m }
  simp only [Run.Executor.paced, watch, hsession]
  exact ⟨(phase_of_perform hperform).trans hphase, hmemory⟩

/-! ### What a run leaves -/

lemma run_of_not_editing (hp : s.board.phase ≠ .editing) :
    s.run source speed observe st =
      { result := .error (.diagnostic (notEditing s.board.phase)), session := s
        observer := st } := by
  have hends := ends_run s source speed observe st
  generalize s.run source speed observe st = after at hends ⊢
  cases hends with
  | refused => rfl
  | rejected he | abandoned he | executed he => exact absurd he hp

/-- A source text that is rejected leaves the board alone. -/
lemma run_of_rejected {d : Diagnostic} (hp : s.board.phase = .editing)
    (hd : (prepare s.settings source speed : Except (Failure ε) _) = .error (.diagnostic d)) :
    (s.run source speed observe st).result = .ok (rejection d) ∧
      (s.run source speed observe st).session =
        { s.opened with memory := { s.opened.memory with last := some (rejection d) } } := by
  have hends := ends_run s source speed observe st
  generalize s.run source speed observe st = after at hends ⊢
  cases hends with
  | refused hn => exact absurd hp hn
  | rejected _ h =>
    rw [hd] at h
    cases h
    exact ⟨rfl, rfl⟩
  | abandoned _ h hf =>
    rw [hd] at h
    cases h
    cases hf
  | executed _ h =>
    rw [hd] at h
    cases h

/-- A run that is abandoned before it starts leaves the board alone too, and gives no result. -/
lemma run_of_abandoned {f : Failure ε} (hp : s.board.phase = .editing)
    (hf : (prepare s.settings source speed : Except (Failure ε) _) = .error f)
    (hno : f.diagnostic? = none) :
    (s.run source speed observe st).result = .error f ∧
      (s.run source speed observe st).session = s.opened := by
  have hends := ends_run s source speed observe st
  generalize s.run source speed observe st = after at hends ⊢
  cases hends with
  | refused hn => exact absurd hp hn
  | rejected _ h =>
    rw [hf] at h
    cases h
    cases hno
  | abandoned _ h =>
    rw [hf] at h
    cases h
    exact ⟨rfl, rfl⟩
  | executed _ h =>
    rw [hf] at h
    cases h

/-- A run that is executed is closed with its outcome, if the observer only watches. -/
lemma run_of_executed (hw : observe.Watches) (hp : s.board.phase = .editing) {e : Run.Executor}
    {logs : List Log.Record}
    (he : (prepare s.settings source speed : Except (Failure ε) _) = .ok (e, logs)) :
    (s.run source speed observe st).result = (s.executed e observe st).outcome ∧
      (s.run source speed observe st).session =
        (s.executing e observe st).closed (s.executed e observe st).outcome := by
  have hends := ends_run s source speed observe st
  generalize s.run source speed observe st = after at hends ⊢
  cases hends with
  | refused hn => exact absurd hp hn
  | abandoned _ h | rejected _ h =>
    rw [he] at h
    cases h
  | executed _ h =>
    rw [he] at h
    cases h
    rcases conclude_cases (s.executing e observe st) (s.executed e observe st).outcome with
      hc | ⟨hn, -⟩
    · rw [hc]
      exact ⟨rfl, rfl⟩
    · exact absurd (executed_of_watches hw s e st).1 hn

/-- The result of a run whose machine has come to an end. -/
def resultOf (failure : Option (Failure ε)) (m : Run.Machine (σ × Memory)) :
    Except (Failure ε) Run.Result :=
  match failure with
  | none => .ok { success := true, steps := m.tally.steps, commands := m.unwind.commands }
  | some (.diagnostic d) => .ok
      { success := false, steps := m.unwind.steps, commands := m.unwind.commands, error := some d }
  | some f => .error f

/-- The result of a run and the board it leaves, from what its machine comes to. -/
lemma run_of_machine {c : Settings} {p : Program} {main : MainBlock}
    {chosen : Speed × List Log.Record} {failure : Option (Failure ε)}
    {m : Run.Machine (σ × Memory)} {b : Board} (hw : observe.Watches) (hb : s.board = b)
    (hp : b.phase = .editing) (hs : s.settings = c)
    (hsource : Program.ofSource source c.maxNumber c.maxNesting = .ok p)
    (hmain : p.main = some main) (hnames : p.names.Nodup)
    (hspeed : Speed.resolve c.speed speed = .ok chosen)
    (hrun :
      let e : Run.Executor :=
        { program := p, table := p.procedures, speed := chosen.1, settings := c
          tally := Run.Executor.freshTally c }
      (e.machine main { b with phase := .running }
        (st, { s.opened.memory with started := true })).run (e.code (e.paced (watch c observe))) =
          (failure, m)) :
    (s.run source speed observe st).result = resultOf failure m ∧
      (s.run source speed observe st).session.board =
        { m.board with phase := lastPhase (resultOf failure m) } := by
  subst hs hb
  obtain ⟨hresult, hsession⟩ : (s.run source speed observe st).result = _ ∧ _ :=
    run_of_executed hw hp (prepare_of_source hsource hmain hnames hspeed)
  rw [hresult, hsession]
  simp only [closed, executing, executed, Run.Executor.run, hmain, hrun]
  cases failure with
  | none => exact ⟨rfl, rfl⟩
  | some f => cases f <;> exact ⟨rfl, rfl⟩

/-- **The life of a run.** A run that is asked for while the board is not in editing is refused and
changes nothing. Any other leaves the board in editing, as it was, exactly when its source text is
rejected; finished exactly when it returns a successful result; and failed otherwise. A text that is
rejected has a result of no steps, if limits and lines can be written, and else maybe none. The look
of the board before the run is kept, and the look after it if the run was a success. -/
theorem run_lifecycle (s : Session) (source : String) {speed : Value}
    {chosen : Speed × List Log.Record}
    (hspeed : Speed.resolve s.settings.speed speed = .ok chosen)
    {observe : Observer σ ε} (hw : observe.Watches) (st : σ) :
    let after := s.run source speed observe st
    (s.board.phase ≠ .editing →
      after.result = .error (.diagnostic (notEditing s.board.phase)) ∧
        (notEditing s.board.phase).kind = .boardState ∧
        after.session = s ∧ after.observer = st) ∧
    (s.board.phase = .editing →
      after.session.board.phase ≠ .running ∧
      (after.session.board.phase = .editing ↔ Rejected s.settings source) ∧
      (after.session.board.phase = .finished ↔ succeeds after.result = true) ∧
      (after.session.board.phase = .failed ↔
        ¬ Rejected s.settings source ∧ succeeds after.result = false) ∧
      (Rejected s.settings source → after.session.board = s.board ∧
        ((∃ r, after.result = .ok r ∧ r.success = false ∧ r.steps = 0) ∨
        (∃ d, after.result = .error (.unwritable d)) ∧
          ¬ Program.Tellable source s.settings.maxNumber s.settings.maxNesting)) ∧
      after.session.memory.initial = some s.board.snapshot ∧
      after.session.memory.final =
        if succeeds after.result then some after.session.board.snapshot else none) := by
  intro after
  refine ⟨fun hp => ?_, fun hp => ?_⟩
  · have hafter : after = _ := run_of_not_editing hp
    rw [hafter]
    exact ⟨rfl, rfl, rfl, rfl⟩
  · -- the speed is accepted, so the source text alone decides whether there is a run
    rcases prepare_cases ε hspeed source with
      ⟨hr, ⟨d, hd⟩ | ⟨⟨d, hd⟩, hno⟩⟩ | ⟨hr, ⟨e, logs⟩, he⟩
    · obtain ⟨hresult, hsession⟩ : after.result = _ ∧ after.session = _ := run_of_rejected hp hd
      simp [hresult, hsession, opened, rejection, succeeds, hp, hr]
    · obtain ⟨hresult, hsession⟩ : after.result = _ ∧ after.session = _ :=
        run_of_abandoned hp hd rfl
      simp [hresult, hsession, opened, succeeds, hp, hr, hno]
    · obtain ⟨hresult, hsession⟩ : after.result = _ ∧ after.session = _ :=
        run_of_executed hw hp he
      have hmemory := (executed_of_watches hw s e st).2
      have hinitial : (s.executing e observe st).memory.initial = some s.board.snapshot :=
        congrArg Memory.initial hmemory
      have hfinal : (s.executing e observe st).memory.final = none :=
        congrArg Memory.final hmemory
      simp only [hresult, hsession, phase_closed, initial_closed, final_closed, hinitial, hfinal,
        lastPhase]
      cases succeeds (s.executed e observe st).outcome <;> simp [hr]

/-- The observer asks for a stop in its first call, and raises in it. -/
theorem run_lifecycle_raised :
    let s : Session := { board := ⟨1, 4, 2, 1, .empty 2 1, ⟨1, 0⟩, .editing⟩, settings := {} }
    let source := "programa\x7bPintarRojo MoverDerecha\x7d"
    let observe : Observer Nat String := fun n s =>
      { state := n + 1, session := s, cancels := true, raised := some (.raised "closed") }
    let after := s.run source .null observe 0
    observe.Watches ∧ ¬ Rejected s.settings source ∧ after.result = .error (.raised "closed") ∧
      after.session.board.phase = .failed ∧
      after.session.memory.initial = some s.board.snapshot ∧ after.session.memory.final = none := by
  intro s source observe after
  have hsource : Program.ofSource "programa\x7bPintarRojo MoverDerecha\x7d" 1000000 100 =
      .ok { main := some ⟨[.command (.paint .red) 1, .command (.move .right) 1], 1⟩ } := by
    unfold Program.ofSource
    conv in tokenize _ _ => cbv
    rfl
  have hspeed : Speed.resolve s.settings.speed .null = .ok (.normal, []) := rfl
  have hwatches : observe.Watches := fun _ _ => rfl
  have haccepted : ¬ Rejected s.settings source := by
    have hprepare : (prepare s.settings source .null : Except (Failure String) _) = _ :=
      prepare_of_source hsource rfl List.nodup_nil hspeed
    rcases prepare_cases String hspeed source with ⟨-, ⟨d, hd⟩ | ⟨⟨d, hd⟩, -⟩⟩ | ⟨hr, -⟩
    · rw [hprepare] at hd
      cases hd
    · rw [hprepare] at hd
      cases hd
    · exact hr
  have hsettings : s.settings = {} := rfl
  have hresult : after.result = .error (.raised "closed") :=
    (run_of_machine hwatches rfl rfl hsettings hsource rfl List.nodup_nil hspeed
      (Run.Machine.run_of_halt rfl)).1
  obtain ⟨-, -, -, hfailed, -, hinitial, hfinal⟩ :=
    (run_lifecycle s source hspeed hwatches 0).2 rfl
  have hfails : succeeds after.result = false := by
    rw [hresult]
    rfl
  refine ⟨hwatches, haccepted, hresult, hfailed.mpr ⟨haccepted, hfails⟩, hinitial, ?_⟩
  rw [hfinal, hfails]
  rfl

/-- **A limit of too many digits**: the text is rejected and the board stays in editing, and there
is no result. -/
theorem run_of_unwritable_limit :
    let s : Session :=
      { board := ⟨1, 1, 1, 1, .empty 1 1, .origin, .editing⟩
        settings := { maxNumber := 10 ^ Text.Integer.maxDigits } }
    let after := s.run "1" .null (Observer.silent Unit String) ()
    Rejected s.settings "1" ∧ after.result = .error (.unwritable none) ∧
      after.session.board = s.board ∧ after.session.memory.last = none := by
  intro s after
  have ht : tokenize "1" s.settings.maxNumber = _ :=
    Lexer.tokenize_digit Text.Integer.isWritable_pow
  have hcompile : (compile s.settings "1" : Except (Failure String) _) =
      .error (.unwritable none) := by
    rw [compile, Program.ofSource, ht]
    rfl
  obtain ⟨hresult, hsession⟩ : after.result = _ ∧ after.session = _ :=
    run_of_abandoned rfl (prepare_of_compile_error hcompile) rfl
  exact ⟨.lexing ht, hresult, by rw [hsession]; rfl, by rw [hsession]; rfl⟩

end Trazo.Session
