import Trazo.Proofs.Board.Cells
import Trazo.Proofs.Diagnostic.ReadBack
import Trazo.Proofs.Program.Lines
import Trazo.Proofs.Run.Agreement
import Trazo.Proofs.Run.Transition

/-!
Which lines are blamed for the failures of a program.

A run stops at a statement, and says so with the line of that statement. As the statements of a
program stand on the lines of its source text, so do all diagnostics: those of the text itself, of
names that are declared twice, and of runs. Each can be found again by the number in its text. A
pause without end is blamed on no line, and neither is a limit or a board that is beyond all
measure: one with integers of too many digits, or with cells missing.
-/

namespace Trazo

variable {σ ε : Type} {L : Set Int}

/-! ### Boards -/

/-- All cells of the board are there, and its sides can be written. -/
structure Board.Regular (b : Board) : Prop where
  wellFormed : b.WellFormed
  sides : Text.Integer.isWritable b.maxSide = true

namespace Board

variable {b after : Board} {c : Command} {line : Option Int} {x : BoardFailure}

lemma Regular.perform (h : b.Regular) (hp : b.perform c line = .ok after) : after.Regular := by
  refine ⟨h.wellFormed.perform hp, ?_⟩
  obtain ⟨d, -, -, rfl⟩ | ⟨ink, -, rfl⟩ := perform_cases hp <;> exact h.sides

/-- The place of the head is one that can be written. -/
lemma Regular.head_writable (h : b.Regular) :
    ∀ n ∈ [b.head.x, b.head.y], Text.Integer.isWritable n = true := by
  obtain ⟨hx, hwidth, hy, hheight⟩ := h.wellFormed.head
  have hsides : ∀ n : Int, 0 ≤ n → n ≤ b.maxSide → Text.Integer.isWritable n = true := by
    intro n h0 hn
    lift n to Nat using h0
    exact Text.Integer.isWritable_of_le (by omega) h.sides
  have := h.wellFormed.width
  have := h.wellFormed.height
  simp only [List.mem_cons, List.not_mem_nil, or_false, forall_eq_or_imp, forall_eq]
  exact ⟨hsides _ hx (by omega), hsides _ hy (by omega)⟩

/-- A command that is not done has a diagnostic with the line that the board is told, unless the
place of the head is beyond writing or its cell is missing. -/
lemma failure_of_perform_error (h : b.perform c line = .error x) :
    (∃ d, (Failure.ofBoardFailure x : Failure ε) = .diagnostic d ∧ d.line = line) ∨
      (∃ d, (Failure.ofBoardFailure x : Failure ε) = .unwritable d) ∧ ¬ b.Regular ∨
      (∃ f, (Failure.ofBoardFailure x : Failure ε) = .grid f) ∧ ¬ b.WellFormed := by
  rcases edge_or_grid_of_perform_error h with ⟨d, -, -, rfl⟩ | ⟨ink, f, hp, rfl⟩
  · by_cases hb : b.Regular
    · exact .inl ⟨_, Failure.report_of_writable hb.head_writable _, rfl⟩
    · rcases Failure.report_cases (ε := ε) [b.head.x, b.head.y] (BoardFault.diagnostic _) with
        hd | hd
      · exact .inl ⟨_, hd, rfl⟩
      · exact .inr (.inl ⟨⟨_, hd⟩, hb⟩)
  · refine .inr (.inr ⟨⟨f, rfl⟩, fun hb => ?_⟩)
    rw [hb.paint_eq] at hp
    cases hp

end Board

/-! ### Runs -/

namespace Run

/-- The task and all in it stand on lines of `L`. -/
def Task.StandsOn (L : Set Int) : Task → Prop
  | .statement s | .counted s => s.StandsOn L
  | .block b | .passes _ b => BlockStandsOn L b

/-- The counts in the task can be written. -/
def Task.Countable : Task → Prop
  | .statement s | .counted s => s.Countable
  | .block b | .passes _ b => BlockCountable b

variable {R : Rules σ ε} {I : Board → Prop} {F : Failure ε → Prop}

/-- Boards of `I` stay in `I`, and what goes wrong on them and is about no line is in `F`. -/
structure Tolerates (R : Rules σ ε) (I : Board → Prop) (F : Failure ε → Prop) : Prop where
  limits : (Text.Integer.isWritable R.settings.maxSteps = true ∧
    Text.Integer.isWritable R.settings.maxDepth = true) ∨ ∀ d, F (.unwritable d)
  performed : ∀ {b c line after}, I b → b.perform c line = .ok after → I after
  refused : ∀ {b c line x}, I b → b.perform c line = .error x → F (.ofBoardFailure x) ∨
    ∃ d, (Failure.ofBoardFailure x : Failure ε) = .diagnostic d ∧ d.line = line
  blind : ∀ {b q f}, I b → b.senses q = .error f → F (.grid f)
  observed : ∀ {st b}, I b → I (R.observe st b).board
  raised : ∀ {st b f}, (R.observe st b).raised = some f → F f

/-- The outcome is on a board of `I`, or a failure in `F` or with a diagnostic about a line of
`L`. -/
def Outcome.BlamedOn (L : Set Int) (I : Board → Prop) (F : Failure ε → Prop) :
    Outcome σ ε → Prop
  | .done w => I w.board
  | .fail f _ => F f ∨ ∃ d, f = .diagnostic d ∧ d.IsOn L

lemma Outcome.BlamedOn.leave {o : Outcome σ ε} (h : o.BlamedOn L I F) : o.leave.BlamedOn L I F := by
  cases o <;> exact h

lemma blamedOn_stop {f : Fault} {line : Int} (h : f.diagnostic.line = some line) (hline : line ∈ L)
    (hn : (∀ n ∈ f.numbers, Text.Integer.isWritable n = true) ∨ ∀ d, F (.unwritable d))
    (w : World σ) : (w.stop f : Outcome σ ε).BlamedOn L I F := by
  have hon : f.diagnostic.IsOn L := ⟨line, hline, h⟩
  rcases hn with hn | hF
  · exact .inr ⟨_, Failure.report_of_writable hn _, hon⟩
  · rcases Failure.report_cases (ε := ε) f.numbers f.diagnostic with hd | hd
    · exact .inr ⟨_, hd, hon⟩
    · refine .inl ?_
      rw [Fault.failure, hd]
      exact hF _

lemma blamedOn_present (hR : Tolerates R I F) {w : World σ} (hw : I w.board) :
    (w.present R).BlamedOn L I F := by
  unfold World.present
  dsimp only
  split
  · exact .inl (hR.raised ‹_›)
  · exact hR.observed hw

/-- **A task is blamed on the lines that it stands on**, if the procedures stand there too, or on
the observer and the board. -/
theorem Leads.blamedOn (hR : Tolerates R I F)
    (hbodies : ∀ p ∈ R.procedures, BlockStandsOn L p.body ∧ BlockCountable p.body) {t : Task}
    {w : World σ} {o : Outcome σ ε} (h : Leads R t w o) (ht : t.StandsOn L) (hc : t.Countable)
    (hw : I w.board) : o.BlamedOn L I F := by
  induction h with
  | cancelled =>
    exact blamedOn_stop rfl (Statement.StandsOn.line ht) (.inl (by simp [Fault.numbers])) _
  | exhausted =>
    refine blamedOn_stop rfl (Statement.StandsOn.line ht) (hR.limits.imp_left fun h => ?_) _
    simpa [Fault.numbers] using h.1
  | @overLimit count _ _ _ _ hn =>
    -- the limit is less than the count
    have hlimit : Text.Integer.isWritable R.settings.maxRepeat = true := by
      lift count to Nat using by omega
      exact Text.Integer.isWritable_of_le (by omega) hc.1
    exact blamedOn_stop rfl ht.1 (.inl (by simpa [Fault.numbers] using ⟨hc.1, hlimit⟩)) _
  | loop _ _ _ ih => exact ih ht.2 hc.2 hw
  | step _ _ _ _ ih => exact ih ht hc hw
  | command hb => exact blamedOn_present hR (hR.performed hw hb)
  | refused hb =>
    refine (hR.refused hw hb).imp_right ?_
    rintro ⟨d, hd, hline⟩
    exact ⟨d, hd, _, ht, hline⟩
  | unknown => exact blamedOn_stop rfl ht (.inl (by simp [Fault.numbers])) _
  | tooDeep =>
    refine blamedOn_stop rfl ht (hR.limits.imp_left fun h => ?_) _
    simpa [Fault.numbers] using h.2
  | call hp _ _ ih =>
    obtain ⟨hstands, hcount⟩ := hbodies _ (List.mem_of_find?_eq_some hp)
    exact (ih hstands hcount hw).leave
  | @yes _ _ no _ _ _ _ _ ih =>
    cases no with
    | none => exact ih ht.2 hc hw
    | some b => exact ih ht.2.1 hc.1 hw
  | no _ _ ih => exact ih ht.2.2 hc.2 hw
  | blind hq => exact .inl (hR.blind hw hq)
  | neither | nil | noPass => exact hw
  | foreign => exact ht.elim
  | cons _ _ ihs ihr => exact ihr ht.2 hc.2 (ihs ht.1 hc.1 hw)
  | consFail _ ih => exact ih ht.1 hc.1 hw
  | pass _ _ ihb ihr => exact ihr ht hc (ihb ht hc hw)
  | passFail _ ih => exact ih ht hc hw

namespace Executor

/-- Where the observer does not raise, no more than the pause can go wrong. -/
lemma raised_paced (e : Executor) {observe : Observer σ ε}
    (hraised : ∀ st b, (observe st b).raised = none) (st : σ) (b : Board) (f : Failure ε)
    (h : (e.paced observe st b).raised = some f) :
    f = .endlessPause ∧ e.pause = .infinite false := by
  simp only [paced, hraised, Option.none_or] at h
  split at h
  · cases h
    exact ⟨rfl, ‹_›⟩
  · cases h

/-- All boards of the run have all their cells. -/
structure Whole (observe : Observer σ ε) (board : Board) : Prop where
  board : board.WellFormed
  observed : ∀ {st b}, b.WellFormed → (observe st b).board.WellFormed

/-- Nothing in the run is beyond measure: the limits can be written, and the boards are regular. -/
structure Orderly (s : Settings) (observe : Observer σ ε) (board : Board) : Prop where
  steps : Text.Integer.isWritable s.maxSteps = true
  depth : Text.Integer.isWritable s.maxDepth = true
  board : board.Regular
  observed : ∀ {st b}, b.Regular → (observe st b).board.Regular

section

variable {e : Executor} {observe : Observer σ ε} {board : Board}
  (hraised : ∀ st b, (observe st b).raised = none)
include hraised

lemma tolerates_any :
    Tolerates (e.rules (e.paced observe)) (fun _ => True)
      fun f => (f = .endlessPause ∧ e.pause = .infinite false) ∨ (∃ d, f = .unwritable d) ∨
        ∃ g, f = .grid g where
  limits := .inr fun d => .inr (.inl ⟨d, rfl⟩)
  performed _ _ := trivial
  refused _ h := by
    rcases Board.failure_of_perform_error (ε := ε) h with hd | ⟨hd, -⟩ | ⟨hf, -⟩
    · exact .inr hd
    · exact .inl (.inr (.inl hd))
    · exact .inl (.inr (.inr hf))
  blind _ _ := .inr (.inr ⟨_, rfl⟩)
  observed _ := trivial
  raised h := .inl (e.raised_paced hraised _ _ _ h)

lemma tolerates_whole (hw : Whole observe board) :
    Tolerates (e.rules (e.paced observe)) Board.WellFormed
      fun f => (f = .endlessPause ∧ e.pause = .infinite false) ∨ ∃ d, f = .unwritable d where
  limits := .inr fun d => .inr ⟨d, rfl⟩
  performed := Board.WellFormed.perform
  refused hb h := by
    rcases Board.failure_of_perform_error (ε := ε) h with hd | ⟨hd, -⟩ | ⟨-, hno⟩
    · exact .inr hd
    · exact .inl (.inr hd)
    · exact absurd hb hno
  blind hb h := by
    rw [hb.senses_eq] at h
    cases h
  observed := hw.observed
  raised h := .inl (e.raised_paced hraised _ _ _ h)

lemma tolerates_regular (ho : Orderly e.settings observe board) :
    Tolerates (e.rules (e.paced observe)) Board.Regular
      fun f => f = .endlessPause ∧ e.pause = .infinite false where
  limits := .inl ⟨ho.steps, ho.depth⟩
  performed := Board.Regular.perform
  refused hb h := by
    rcases Board.failure_of_perform_error (ε := ε) h with hd | ⟨-, hno⟩ | ⟨-, hno⟩
    · exact .inr hd
    · exact absurd hb hno
    · exact absurd hb.wellFormed hno
  blind hb h := by
    rw [hb.wellFormed.senses_eq] at h
    cases h
  observed := ho.observed
  raised h := e.raised_paced hraised _ _ _ h

end

/-- A run whose observer does not raise is a success, ends with a diagnostic about a line of the
program, or comes to a pause without end. Only a run that is not orderly may come upon an integer
that cannot be written, and only one with a board that is not whole upon a cell that is missing. -/
theorem result_run_cases {e : Executor} {main : MainBlock} (hmain : e.program.main = some main)
    (htable : e.table = e.program.procedures) (hstands : e.program.StandsOn L)
    (hcount : e.program.Countable) {observe : Observer σ ε}
    (hraised : ∀ st b, (observe st b).raised = none) (st : σ) (board : Board) :
    let r := (e.run (e.paced observe) st board).result
    (∃ n, r = .ok n) ∨ (∃ d, r = .error (.diagnostic d) ∧ d.IsOn L) ∨
      r = .error .endlessPause ∧ e.pause = .infinite false ∨
      (∃ d, r = .error (.unwritable d)) ∧ ¬ Orderly e.settings observe board ∨
      (∃ g, r = .error (.grid g)) ∧ ¬ Whole observe board := by
  intro r
  obtain ⟨o, h, hrun, -⟩ :=
    exists_leads_run hmain hereditary_blockIsInert (e.paced observe) st board
  have hbodies : ∀ p ∈ e.table, BlockStandsOn L p.body ∧ BlockCountable p.body := by
    rw [htable]
    exact fun p hp => ⟨(hstands.procedures p hp).2, hcount _ (Program.body_mem_blocks_of_mem hp)⟩
  have hblamed : ∀ {I F}, Tolerates (e.rules (e.paced observe)) I F → I board →
      o.BlamedOn L I F := fun hR hI =>
    h.blamedOn hR hbodies (hstands.main main hmain).2
      (hcount _ (Program.body_mem_blocks_of_main hmain)) hI
  have hr : r = o.result := congrArg Ended.result hrun
  rw [hr]
  cases o with
  | done w => exact .inl ⟨w.steps, rfl⟩
  | fail f w =>
    rcases hblamed (tolerates_any hraised) trivial with
      (⟨rfl, hpause⟩ | ⟨d, rfl⟩ | ⟨g, rfl⟩) | ⟨d, rfl, hd⟩
    · exact .inr (.inr (.inl ⟨rfl, hpause⟩))
    · refine .inr (.inr (.inr (.inl ⟨⟨d, rfl⟩, fun ho => ?_⟩)))
      rcases hblamed (tolerates_regular hraised ho) ho.board with ⟨⟨⟩, -⟩ | ⟨_, ⟨⟩, -⟩
    · refine .inr (.inr (.inr (.inr ⟨⟨g, rfl⟩, fun hw => ?_⟩)))
      rcases hblamed (tolerates_whole hraised hw) hw.board with
        (⟨⟨⟩, -⟩ | ⟨_, ⟨⟩⟩) | ⟨_, ⟨⟩, -⟩
    · exact .inr (.inl ⟨d, rfl, hd⟩)

/-- Pauses with an end make no difference. -/
lemma paced_of_pause_ne {e : Executor} (h : e.pause ≠ .infinite false) (observe : Observer σ ε) :
    e.paced observe = observe := by
  funext st b
  simp only [paced, if_neg h, Option.or_none]

/-- A name that is declared twice is reported where the executor is made. -/
lemma create_eq_error {program : Program} {main : MainBlock} (hmain : program.main = some main)
    {d : DuplicateProcedure} (htable : Procedure.table program.procedures = .error d)
    {speed : Value} {settings : Settings} {chosen : Speed × List Log.Record}
    (hspeed : Speed.resolve settings.speed speed = .ok chosen) :
    (create program speed settings : Except (Failure ε) _) = .error (.diagnostic d.diagnostic) := by
  simp only [create, hmain, hspeed, htable]
  rfl

end Executor

end Run

/-! ### Source texts -/

variable {source : String} {d : Diagnostic}

/-- The diagnostic is about a line of the text, and its own text says which. A numeral that is too
long to be read is not asked for. -/
def Diagnostic.PointsInto (source : String) (d : Diagnostic) : Prop :=
  ∃ n : Nat, d.line = some (n : Int) ∧ 1 ≤ n ∧ n ≤ 1 + source.toList.count '\n' ∧
    (n < 10 ^ Text.Integer.maxDigits → lineOf d.render = .ok (some (n : Int)))

lemma Diagnostic.IsOn.pointsInto (h : d.IsOn (linesOf source)) : d.PointsInto source := by
  obtain ⟨line, ⟨hlow, hhigh⟩, hline⟩ := h
  lift line to Nat using by omega
  refine ⟨line, hline, by omega, ?_, lineOf_render hline⟩
  simp only [lineBehind] at hhigh
  omega

open Run in
/-- **Every diagnostic points into the source text.** A text gives a program or a diagnostic about
one of its lines, if limits and lines can be written. A program has an executor, or a name that is
declared twice is reported on one of the lines. And on any board, however soon a stop is asked for,
a run of it is a success or ends with a diagnostic about one of the lines, as long as the observer
does not raise, the pauses are not endless, the run is orderly and the boards are whole. -/
theorem diagnostics_point_into_source (source : String) (s : Settings) :
    (∃ f, Program.ofSource source s.maxNumber s.maxNesting = .error f ∧
      ((∃ d, (∀ ε, (f.failure : Failure ε) = .diagnostic d) ∧
        (d.kind = .lexical ∨ ∃ expected found, d.kind = .grammatical expected found) ∧
        d.PointsInto source) ∨
      (∃ d, ∀ ε, (f.failure : Failure ε) = .unwritable d) ∧
        ¬ Program.Tellable source s.maxNumber s.maxNesting)) ∨
    ∃ p, Program.ofSource source s.maxNumber s.maxNesting = .ok p ∧
      ∀ {ε : Type} {speed : Value} {chosen : Speed × List Log.Record},
        Speed.resolve s.speed speed = .ok chosen →
        (¬ p.names.Nodup ∧ ∃ d,
          (Executor.create p speed s : Except (Failure ε) _) = .error (.diagnostic d) ∧
            d.PointsInto source) ∨
        (p.names.Nodup ∧ ∃ e,
          (Executor.create p speed s : Except (Failure ε) _) = .ok (e, chosen.2) ∧
          ∀ {σ : Type} {observe : Observer σ ε}, (∀ st b, (observe st b).raised = none) →
            ∀ (early : Bool) (st : σ) (board : Board),
              let e := { e with cancelled := early }
              let r := (e.run (e.paced observe) st board).result
              (∃ n, r = .ok n) ∨ (∃ d, r = .error (.diagnostic d) ∧ d.PointsInto source) ∨
                r = .error .endlessPause ∧ s.pause chosen.1 = .infinite false ∨
                (∃ d, r = .error (.unwritable d)) ∧ ¬ Executor.Orderly s observe board ∨
                (∃ g, r = .error (.grid g)) ∧ ¬ Executor.Whole observe board) := by
  rcases Program.ofSource_cases source s.maxNumber s.maxNesting with
    ⟨p, main, hp, hmain, hstands, hcount⟩ | ⟨f, hf, ⟨d, hd⟩ | hmute⟩
  · refine .inr ⟨p, hp, fun {ε speed chosen} hspeed => ?_⟩
    cases htable : Procedure.table p.procedures with
    | error d =>
      have hnames : ¬ p.names.Nodup := by
        intro h
        rw [Procedure.table_eq_ok_iff.mpr ⟨rfl, h⟩] at htable
        cases htable
      have hline := (hstands.procedures _ (Procedure.mem_of_table_eq_error htable)).1
      refine .inl ⟨hnames, d.diagnostic, Executor.create_eq_error hmain htable hspeed, ?_⟩
      exact Diagnostic.IsOn.pointsInto ⟨_, hline, rfl⟩
    | ok table =>
      have hnames : p.names.Nodup := (Procedure.table_eq_ok_iff.mp htable).2
      refine .inr ⟨hnames, _, Executor.create_eq hmain hnames hspeed, ?_⟩
      intro σ observe hraised early st board e
      have hmain' : e.program.main = some main := hmain
      rcases Executor.result_run_cases hmain' rfl hstands hcount hraised st board with
        hn | ⟨d, hd, hon⟩ | hrest
      · exact .inl hn
      · exact .inr (.inl ⟨d, hd, hon.pointsInto⟩)
      · exact .inr (.inr hrest)
  · exact .inl ⟨f, hf, .inl ⟨d, hd.failure, hd.kind, hd.line.pointsInto⟩⟩
  · exact .inl ⟨f, hf, .inr hmute⟩

/-- The head falls off the board on the third of four lines. -/
theorem diagnostics_point_into_source_edge :
    let source := "programa\x7b\n PintarRojo\n MoverIzquierda\n\x7d"
    let main : MainBlock := ⟨[.command (.paint .red) 2, .command (.move .left) 3], 1⟩
    let e : Run.Executor := { program := { main := some main }, table := [], speed := .normal
                              settings := {}, tally := Run.Executor.freshTally {} }
    let board : Board := ⟨1, 1, 1, 1, .empty 1 1, .origin, .editing⟩
    let d := (BoardFault.edge .origin .left (some 3)).diagnostic
    Program.ofSource source 1000000 100 = .ok e.program ∧
      (Run.Executor.create e.program .null {} : Except (Failure String) _) = .ok (e, []) ∧
      (e.run (e.paced (Run.Observer.silent Unit String)) () board).result = .error (.diagnostic d) ∧
      d.PointsInto source := by
  intro source main e board d
  have hsource : Program.ofSource "programa\x7b\n PintarRojo\n MoverIzquierda\n\x7d" 1000000 100 =
      .ok { main := some ⟨[.command (.paint .red) 2, .command (.move .left) 3], 1⟩ } := by
    unfold Program.ofSource
    conv in tokenize _ _ => cbv
    rfl
  have hspeed : Speed.resolve e.settings.speed .null = .ok (.normal, []) := rfl
  have hnames : e.program.names.Nodup := List.nodup_nil
  have hcreate : (Run.Executor.create e.program .null {} : Except (Failure String) _) =
      .ok (e, []) := Run.Executor.create_eq rfl hnames hspeed
  have hresult : (e.run (e.paced (Run.Observer.silent Unit String)) () board).result =
      .error (.diagnostic d) := by
    have hpause : e.pause ≠ .infinite false := by decide
    have hmachine : (e.machine main board ()).run (e.code (Run.Observer.silent Unit String)) =
        (some (.ofBoardFailure (.refused (.edge .origin .left (some 3)))), _) :=
      (Run.Machine.run_of_more rfl).trans (Run.Machine.run_of_halt rfl)
    have hreport : (.ofBoardFailure (.refused (.edge .origin .left (some 3))) : Failure String) =
        .diagnostic d := rfl
    rw [Run.Executor.paced_of_pause_ne hpause]
    simp only [Run.Executor.run, e, hmachine, hreport]
  refine ⟨hsource, hcreate, hresult, ?_⟩
  rcases diagnostics_point_into_source source {} with ⟨f, hf, -⟩ | ⟨p, hp, h⟩
  · rw [hsource] at hf
    cases hf
  obtain rfl : e.program = p := Except.ok.inj (hsource.symm.trans hp)
  rcases h hspeed with ⟨hn, -⟩ | ⟨-, made, hmade, hrun⟩
  · exact absurd hnames hn
  obtain ⟨rfl, -⟩ : e = made ∧ _ := Prod.ext_iff.mp (Except.ok.inj (hcreate.symm.trans hmade))
  have hraised : ∀ st b, (Run.Observer.silent Unit String st b).raised = none := fun _ _ => rfl
  rcases hrun hraised false () board with
    ⟨n, hn⟩ | ⟨d', hd', hpoints⟩ | ⟨hpause, -⟩ | ⟨⟨d', hd'⟩, -⟩ | ⟨⟨g, hg⟩, -⟩
  · rw [hresult] at hn
    cases hn
  · rw [hresult] at hd'
    cases hd'
    exact hpoints
  · rw [hresult] at hpause
    cases hpause
  · rw [hresult] at hd'
    cases hd'
  · rw [hresult] at hg
    cases hg

/-- A run gets no further than its first command, if the pause after it has more seconds than can be
counted. -/
theorem run_stops_at_endless_pause :
    let s : Settings := { delays := { instant := 10 ^ 320 } }
    let source := "programa\x7bPintarRojo\x7d"
    let main : MainBlock := ⟨[.command (.paint .red) 1], 1⟩
    let e : Run.Executor := { program := { main := some main }, table := [], speed := .instant
                              settings := s, tally := Run.Executor.freshTally s }
    let board : Board := ⟨1, 1, 1, 1, .empty 1 1, .origin, .editing⟩
    Program.ofSource source s.maxNumber s.maxNesting = .ok e.program ∧
      (Run.Executor.create e.program (.text "instant") s : Except (Failure String) _) =
        .ok (e, []) ∧
      (e.run (e.paced (Run.Observer.silent Unit String)) () board).result =
        .error .endlessPause := by
  intro s source main e board
  have hsource : Program.ofSource "programa\x7bPintarRojo\x7d" 1000000 100 =
      .ok { main := some ⟨[.command (.paint .red) 1], 1⟩ } := by
    unfold Program.ofSource
    conv in tokenize _ _ => cbv
    rfl
  have hspeed : Speed.resolve e.settings.speed (.text "instant") = .ok (.instant, []) := rfl
  have hnames : e.program.names.Nodup := List.nodup_nil
  have hpause : e.pause = .infinite false := by decide +kernel
  have hpaced : e.paced (Run.Observer.silent Unit String) = fun st b =>
      { state := st, board := b, raised := some .endlessPause } := by
    funext st b
    simp only [Run.Executor.paced, if_pos hpause]
    rfl
  refine ⟨hsource, Run.Executor.create_eq rfl hnames hspeed, ?_⟩
  have hmachine : (e.machine main board ()).run
      (e.code fun st b => { state := st, board := b, raised := some .endlessPause }) =
        (some (.endlessPause : Failure String), _) := Run.Machine.run_of_halt rfl
  rw [hpaced]
  simp only [Run.Executor.run, e, hmachine]

end Trazo
