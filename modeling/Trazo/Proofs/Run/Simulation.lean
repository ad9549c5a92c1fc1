import Trazo.Proofs.Run.Agreement

/-!
Two runs in step with each other.

The second run may be given other commands where the first is given some, and may have another
board, as long as the head finds the same under it and can go on wherever the first can. This is
asked of one command at a time. Calls, loops, conditions and limits do the rest, as they see nothing
of a board but what the head finds: whole runs end alike, with the same counts.
-/

namespace Trazo

/-! ### Other commands in the same places -/

mutual

/-- The statement with other commands in it. -/
def Statement.translate (f : Command → Command) : Statement → Statement
  | .command c line => .command (f c) line
  | .call name line => .call name line
  | .loop count body line => .loop count (translateBlock f body) line
  | .branch q yes none line => .branch q (translateBlock f yes) none line
  | .branch q yes (some no) line =>
    .branch q (translateBlock f yes) (some (translateBlock f no)) line
  | .foreign kind line => .foreign kind line

def translateBlock (f : Command → Command) : Block → Block
  | [] => []
  | s :: r => s.translate f :: translateBlock f r

end

def MainBlock.translate (f : Command → Command) (m : MainBlock) : MainBlock :=
  { m with body := translateBlock f m.body }

def Procedure.translate (f : Command → Command) (p : Procedure) : Procedure :=
  { p with body := translateBlock f p.body }

/-- The program with other commands in it. -/
def Program.translate (f : Command → Command) (p : Program) : Program :=
  ⟨p.main.map (·.translate f), p.procedures.map (·.translate f)⟩

variable {f : Command → Command}

lemma Statement.line_translate (s : Statement) : (s.translate f).line = s.line := by
  fun_cases Statement.translate f s <;> rfl

mutual

lemma Statement.translate_id : ∀ s : Statement, s.translate id = s
  | .command c line | .call name line | .foreign kind line => rfl
  | .loop count body line => by rw [Statement.translate, translateBlock_id body]
  | .branch q yes none line => by rw [Statement.translate, translateBlock_id yes]
  | .branch q yes (some no) line => by
    rw [Statement.translate, translateBlock_id yes, translateBlock_id no]

lemma translateBlock_id : ∀ b : Block, translateBlock id b = b
  | [] => rfl
  | s :: r => by rw [translateBlock, s.translate_id, translateBlock_id r]

end

lemma Procedure.find?_translate (t : List Procedure) (name : String) :
    find? (t.map (·.translate f)) name = (find? t name).map (·.translate f) := by
  rw [find?, List.find?_map]
  rfl

lemma Procedure.names_translate (t : List Procedure) :
    (t.map (·.translate f)).map (·.name) = t.map (·.name) := by
  rw [List.map_map]
  rfl

/-- The failure tells that the head would have left the board, or was to tell it. -/
def Failure.isBoundary {ε : Type} : Failure ε → Bool
  | .diagnostic d | .unwritable (some d) =>
    match d.kind with
    | .boundary .. => true
    | _ => false
  | _ => false

namespace Run

variable {σ τ ε : Type}

def Task.translate (f : Command → Command) : Task → Task
  | .statement s => .statement (s.translate f)
  | .counted s => .counted (s.translate f)
  | .block b => .block (translateBlock f b)
  | .passes n b => .passes n (translateBlock f b)

lemma isCounted_translate (s : Statement) : isCounted (s.translate f) = isCounted s := by
  fun_cases Statement.translate f s <;> rfl

/-- The limits of a run have nothing to do with the edges of the board. -/
lemma Fault.isBoundary_failure (x : Fault) : (x.failure : Failure ε).isBoundary = false := by
  rcases Failure.report_cases (ε := ε) x.numbers x.diagnostic with h | h <;> rw [failure, h] <;>
    cases x <;> rfl

lemma isBoundary_edge (head : Position) (d : Direction) (line : Option Int) :
    (Failure.ofBoardFailure (.refused (.edge head d line)) : Failure ε).isBoundary = true := by
  have h : (Failure.ofBoardFailure (.refused (.edge head d line)) : Failure ε) =
    .report [head.x, head.y] (BoardFault.edge head d line).diagnostic := rfl
  rcases Failure.report_cases (ε := ε) [head.x, head.y] (BoardFault.edge head d line).diagnostic
    with h' | h' <;> rw [h, h'] <;> rfl

/-! ### Observers that take no part -/

/-- The observer leaves the board alone, asks for no stop, and raises the same every time, if
anything. -/
structure Observer.Steady (observe : Observer σ ε) (raises : Option (Failure ε)) : Prop where
  board : ∀ st b, (observe st b).board = b
  cancels : ∀ st b, (observe st b).cancels = false
  raised : ∀ st b, (observe st b).raised = raises

/-- The observer looks, and does nothing that a run could notice. -/
abbrev Observer.Aloof (observe : Observer σ ε) : Prop := observe.Steady none

/-- What a run raises after its first command if nobody else does. -/
def Executor.overrun (e : Executor) : Option (Failure ε) :=
  if e.pause = .infinite false then some .endlessPause else none

lemma Observer.Aloof.paced {observe : Observer σ ε} (h : observe.Aloof) (e : Executor) :
    (e.paced observe).Steady e.overrun where
  board := h.board
  cancels := h.cancels
  raised st b := by
    simp only [Executor.paced, h.raised, Option.none_or]
    rfl

lemma Executor.isBoundary_of_overrun {e : Executor} (f : Failure ε) (h : e.overrun = some f) :
    f.isBoundary = false := by
  unfold overrun at h
  split at h
  · obtain rfl := Option.some.inj h
    rfl
  · cases h

/-! ### What is asked of one command -/

/-- How a second run follows a first. -/
structure Simulation (ε : Type) where
  /-- The command of the second run for a command of the first. -/
  command : Command → Command
  /-- The boards that the two runs have at the same time. -/
  boards : Board → Board → Prop
  /-- What is known of the boards that the first run shows. -/
  shown : Board → Prop
  /-- What the first run may fail with. -/
  allowed : Failure ε → Prop
  failures : Failure ε → Failure ε → Prop
  senses : ∀ {b b' : Board} (q : Sensor), boards b b' → b'.senses q = b.senses q
  performs : ∀ {b b' after : Board} {c : Command} {line : Option Int}, boards b b' →
    b.perform c line = .ok after → shown after →
      ∃ after', b'.perform (command c) line = .ok after' ∧ boards after after'
  refuses : ∀ {b b' : Board} {c : Command} {line : Option Int} {x : BoardFailure}, boards b b' →
    b.perform c line = .error x → allowed (.ofBoardFailure x) →
      ∃ x', b'.perform (command c) line = .error x' ∧
        failures (.ofBoardFailure x) (.ofBoardFailure x')
  /-- All other failures are the same in both runs. -/
  same : ∀ {f : Failure ε}, f.isBoundary = false → failures f f

variable {X : Simulation ε}

/-- The worlds differ in nothing but their boards, and in what the observers keep. -/
structure World.Pairs (X : Simulation ε) (w : World σ) (w' : World τ) : Prop where
  board : X.boards w.board w'.board
  steps : w'.steps = w.steps
  commands : w'.commands = w.commands
  calls : w'.calls = w.calls
  cancelled : w'.cancelled = w.cancelled
  pauses : w'.pauses = w.pauses
  seen : List.Forall₂ X.boards w.seen w'.seen

inductive Outcome.Pairs (X : Simulation ε) : Outcome σ ε → Outcome τ ε → Prop
  | done {w : World σ} {w' : World τ} (hw : w.Pairs X w') : Pairs X (.done w) (.done w')
  | fail {f f' : Failure ε} {w : World σ} {w' : World τ} (hf : X.failures f f')
      (hw : w.Pairs X w') : Pairs X (.fail f w) (.fail f' w')

/-- The same procedures but for their commands, the same limits, and observers that take no part
and raise the same. -/
structure Rules.Pairs (X : Simulation ε) (R : Rules σ ε) (R' : Rules τ ε) : Prop where
  procedures : R'.procedures = R.procedures.map (·.translate X.command)
  settings : R'.settings = R.settings
  observe : ∃ raises, R.observe.Steady raises ∧ R'.observe.Steady raises ∧
    ∀ f, raises = some f → f.isBoundary = false

/-- The outcome is one that the second run can follow. -/
structure Outcome.Followed (X : Simulation ε) (o : Outcome σ ε) : Prop where
  shown : ∀ b ∈ o.world.seen, X.shown b
  allowed : ∀ f, o.failure = some f → X.allowed f

/-! ### What is asked of whole runs -/

variable {R : Rules σ ε} {R' : Rules τ ε} {t : Task} {w v : World σ} {w' : World τ}
  {o : Outcome σ ε}

lemma World.seen_present (R : Rules σ ε) (w : World σ) :
    (w.present R).world.seen = w.seen ++ [w.board] := by
  unfold World.present
  dsimp only
  split <;> rfl

/-- The boards that have been shown stay shown. -/
lemma Leads.seen_isPrefix (h : Leads R t w o) : w.seen <+: o.world.seen := by
  induction h with
  | cancelled | overLimit | exhausted | refused | unknown | tooDeep | neither | blind | foreign |
    nil | noPass => exact List.prefix_rfl
  | command =>
    rw [World.seen_present]
    exact List.prefix_append _ _
  | @call name line w p o _ _ _ ih => cases o <;> exact ih
  | loop _ _ _ ih | step _ _ _ _ ih | yes _ _ ih | no _ _ ih | consFail _ ih | passFail _ ih =>
    exact ih
  | cons _ _ ihs ihr | pass _ _ ihs ihr => exact ihs.trans ihr

/-- What comes before the end of a task can be followed if the end can. -/
lemma Outcome.Followed.before (ho : o.Followed X) (h : Leads R t v o) :
    (Outcome.done (ε := ε) v).Followed X := by
  refine ⟨fun b hb => ho.shown b (h.seen_isPrefix.subset hb), ?_⟩
  intro f hf
  cases hf

lemma Outcome.Followed.of_leave (ho : o.leave.Followed X) : o.Followed X := by
  obtain ⟨hshown, hallowed⟩ := ho
  cases o <;> exact ⟨hshown, hallowed⟩

lemma Outcome.Pairs.leave {o' : Outcome τ ε} (h : o.Pairs X o') : o.leave.Pairs X o'.leave := by
  have hleave {w : World σ} {w' : World τ} (hw : w.Pairs X w') : w.leave.Pairs X w'.leave :=
    { hw with calls := by simp only [World.leave, hw.calls] }
  cases h with
  | done hw => exact .done (hleave hw)
  | fail hf hw => exact .fail hf (hleave hw)

/-- A failure that is not the board's is met by both. -/
lemma World.Pairs.stop (hw : w.Pairs X w') (x : Fault) : (w.stop x).Pairs X (w'.stop x) :=
  .fail (X.same x.isBoundary_failure) hw

/-- The observers are shown the boards at the same time. -/
lemma World.Pairs.present (hR : R.Pairs X R') (hw : w.Pairs X w') :
    (w.present R).Pairs X (w'.present R') := by
  obtain ⟨raises, hsteady, hsteady', hraises⟩ := hR.observe
  have hseen : List.Forall₂ X.boards (w.seen ++ [w.board]) (w'.seen ++ [w'.board]) :=
    List.rel_append hw.seen (.cons hw.board .nil)
  unfold World.present
  simp only [hsteady.board, hsteady.cancels, hsteady.raised, hsteady'.board, hsteady'.cancels,
    hsteady'.raised, Bool.or_false]
  cases raises with
  | none => exact .done ⟨hw.board, hw.steps, hw.commands, hw.calls, hw.cancelled,
      congrArg (· + 1) hw.pauses, hseen⟩
  | some f => exact .fail (X.same (hraises f rfl)) ⟨hw.board, hw.steps, hw.commands, hw.calls,
      hw.cancelled, hw.pauses, hseen⟩

/-- **One command follows another**, and so do tasks: what the second rules make of the translated
task corresponds to what the first make of the task. -/
theorem Leads.simulated (hR : R.Pairs X R') (h : Leads R t w o) (hw : w.Pairs X w')
    (ho : o.Followed X) : ∃ o', Leads R' (t.translate X.command) w' o' ∧ o.Pairs X o' := by
  induction h generalizing w' with
  | @cancelled s w hc =>
    refine ⟨_, .cancelled (hw.cancelled.trans hc), ?_⟩
    rw [s.line_translate]
    exact hw.stop _
  | overLimit hc hn =>
    rw [← hR.settings] at hn ⊢
    exact ⟨_, .overLimit (hw.cancelled.trans hc) hn, hw.stop _⟩
  | loop hc hn _ ih =>
    rw [← hR.settings] at hn
    obtain ⟨o', h, hpairs⟩ := ih hw ho
    exact ⟨o', .loop (hw.cancelled.trans hc) hn h, hpairs⟩
  | @exhausted s w hs hc hn =>
    rw [← hR.settings, ← hw.steps] at hn
    refine ⟨_, .exhausted ((isCounted_translate s).trans hs) (hw.cancelled.trans hc) hn, ?_⟩
    rw [s.line_translate, hR.settings]
    exact hw.stop _
  | @step s w o hs hc hn _ ih =>
    rw [← hR.settings, ← hw.steps] at hn
    have hstep : { w with steps := w.steps + 1 }.Pairs X { w' with steps := w'.steps + 1 } :=
      { hw with steps := congrArg (· + 1) hw.steps }
    obtain ⟨o', h, hpairs⟩ := ih hstep ho
    exact ⟨o', .step ((isCounted_translate s).trans hs) (hw.cancelled.trans hc) hn h, hpairs⟩
  | @command c line w b hb =>
    have hshown : X.shown b := by
      refine ho.shown b ?_
      rw [World.seen_present]
      exact List.mem_append_right _ (List.mem_singleton_self b)
    obtain ⟨b', hb', hboards⟩ := X.performs hw.board hb hshown
    refine ⟨_, .command hb', World.Pairs.present hR ?_⟩
    exact { hw with board := hboards, commands := congrArg (· + 1) hw.commands }
  | refused hb =>
    obtain ⟨x', hx', hf⟩ := X.refuses hw.board hb (ho.allowed _ rfl)
    exact ⟨_, .refused hx', .fail hf hw⟩
  | @unknown name line w hp =>
    have hp' : Procedure.find? R'.procedures name = none := by
      rw [hR.procedures, Procedure.find?_translate, hp]
      rfl
    refine ⟨_, .unknown hp', ?_⟩
    rw [hR.procedures, Procedure.names_translate]
    exact hw.stop _
  | @tooDeep name line w p hp hd =>
    have hp' : Procedure.find? R'.procedures name = some (p.translate X.command) := by
      rw [hR.procedures, Procedure.find?_translate, hp]
      rfl
    rw [← hR.settings, ← hw.calls] at hd ⊢
    exact ⟨_, .tooDeep hp' hd, hw.stop _⟩
  | @call name line w p o hp hd _ ih =>
    have hp' : Procedure.find? R'.procedures name = some (p.translate X.command) := by
      rw [hR.procedures, Procedure.find?_translate, hp]
      rfl
    rw [← hR.settings, ← hw.calls] at hd
    have henter : (w.enter name).Pairs X (w'.enter name) :=
      { hw with calls := congrArg (· ++ [name]) hw.calls }
    obtain ⟨o', h, hpairs⟩ := ih henter ho.of_leave
    exact ⟨o'.leave, .call hp' hd h, hpairs.leave⟩
  | @yes q b no line w o hq _ ih =>
    obtain ⟨o', h, hpairs⟩ := ih hw ho
    refine ⟨o', ?_, hpairs⟩
    cases no <;> exact .yes ((X.senses q hw.board).trans hq) h
  | @no q _ _ _ _ _ hq _ ih =>
    obtain ⟨o', h, hpairs⟩ := ih hw ho
    exact ⟨o', .no ((X.senses q hw.board).trans hq) h, hpairs⟩
  | @neither q _ _ _ hq =>
    exact ⟨_, .neither ((X.senses q hw.board).trans hq), .done hw⟩
  | @blind q _ no _ _ _ hq =>
    refine ⟨_, ?_, .fail (X.same rfl) hw⟩
    cases no <;> exact .blind ((X.senses q hw.board).trans hq)
  | foreign => exact ⟨_, .foreign, .fail (X.same rfl) hw⟩
  | nil => exact ⟨_, .nil, .done hw⟩
  | cons _ hr ihs ihr =>
    obtain ⟨_, hs, hpairs⟩ := ihs hw (ho.before hr)
    cases hpairs with
    | done hv =>
      obtain ⟨o', hr, hpairs⟩ := ihr hv ho
      exact ⟨o', .cons hs hr, hpairs⟩
  | consFail _ ihs =>
    obtain ⟨_, hs, hpairs⟩ := ihs hw ho
    cases hpairs with
    | fail hf hv => exact ⟨_, .consFail hs, .fail hf hv⟩
  | noPass => exact ⟨_, .noPass, .done hw⟩
  | pass _ hr ihb ihr =>
    obtain ⟨_, hb, hpairs⟩ := ihb hw (ho.before hr)
    cases hpairs with
    | done hv =>
      obtain ⟨o', hr, hpairs⟩ := ihr hv ho
      exact ⟨o', .pass hb hr, hpairs⟩
  | passFail _ ihb =>
    obtain ⟨_, hb, hpairs⟩ := ihb hw ho
    cases hpairs with
    | fail hf hv => exact ⟨_, .passFail hb, .fail hf hv⟩

namespace Executor

/-- The executor of the program with other commands in it. -/
def translate (f : Command → Command) (e : Executor) : Executor :=
  { e with program := e.program.translate f, table := e.table.map (·.translate f) }

lemma translate_id (e : Executor) : e.translate id = e := by
  have hmain : ∀ m : MainBlock, m.translate id = m := fun m => by
    rw [MainBlock.translate, translateBlock_id]
  have hprocedure : ∀ p : Procedure, p.translate id = p := fun p => by
    rw [Procedure.translate, translateBlock_id]
  simp only [translate, Program.translate, hmain, hprocedure, Option.map_id', List.map_id']

/-- The results of two runs, one of which follows the other. -/
inductive ResultPairs (X : Simulation ε) : Except (Failure ε) Nat → Except (Failure ε) Nat → Prop
  | ok (steps : Nat) : ResultPairs X (.ok steps) (.ok steps)
  | error {f f' : Failure ε} (hf : X.failures f f') : ResultPairs X (.error f) (.error f')

/-- What is left after two runs, one of which follows the other. -/
structure Ended.Pairs (X : Simulation ε) (r : Ended σ ε) (r' : Ended τ ε) : Prop where
  result : ResultPairs X r.result r'.result
  board : X.boards r.board r'.board
  steps : r'.executor.tally.steps = r.executor.tally.steps
  commands : r'.executor.tally.commands = r.executor.tally.commands
  calls : r'.executor.tally.stack = r.executor.tally.stack
  pauses : r'.pauses = r.pauses

variable {e : Executor} {observe : Observer σ ε} {observe' : Observer τ ε} {st : σ} {st' : τ}
  {board board' : Board}

lemma Ended.pairs_ended {o' : Outcome τ ε} (h : o.Pairs X o') :
    (e.ended board o).Pairs X ((e.translate X.command).ended board' o') := by
  cases h with
  | @done w w' hw =>
    refine ⟨?_, hw.board, hw.steps, hw.commands, ?_, hw.pauses⟩
    · rw [show (e.ended board (.done w)).result = .ok w.steps from rfl, ← hw.steps]
      exact .ok w'.steps
    · simp [ended, tallyOf, Tally.stack, Outcome.world, hw.calls]
  | fail hf hw =>
    refine ⟨.error hf, hw.board, hw.steps, hw.commands, ?_, hw.pauses⟩
    simp [ended, tallyOf, Tally.stack, Outcome.world, hw.calls]

/-- **A run follows another** if its commands do: both end alike and show boards that correspond. -/
theorem run_translate {raises : Option (Failure ε)} (hobserve : observe.Steady raises)
    (hobserve' : observe'.Steady raises) (hraises : ∀ f, raises = some f → f.isBoundary = false)
    (hboards : X.boards board board') (hshown : ∀ b ∈ e.shown observe st board, X.shown b)
    (hallowed : ∀ f, (e.run observe st board).result = .error f → X.allowed f) :
    (e.run observe st board).Pairs X ((e.translate X.command).run observe' st' board') ∧
      List.Forall₂ X.boards (e.shown observe st board)
        ((e.translate X.command).shown observe' st' board') := by
  cases hmain : e.program.main with
  | none =>
    have hmain' : (e.translate X.command).program.main = none := by
      simp [translate, Program.translate, hmain]
    simp only [shown, run, hmain, hmain']
    exact ⟨⟨.error (X.same rfl), hboards, rfl, rfl, rfl, rfl⟩, .nil⟩
  | some main =>
    have hmain' : (e.translate X.command).program.main = some (main.translate X.command) := by
      simp [translate, Program.translate, hmain]
    obtain ⟨o, ho, hrun, hseen⟩ := exists_leads_run hmain hereditary_blockIsInert observe st board
    obtain ⟨o', ho', hrun', hseen'⟩ :=
      exists_leads_run hmain' hereditary_blockIsInert observe' st' board'
    have hR : (e.rules observe).Pairs X ((e.translate X.command).rules observe') :=
      ⟨rfl, rfl, raises, hobserve, hobserve', hraises⟩
    have hfollowed : o.Followed X := by
      rw [hseen] at hshown
      refine ⟨hshown, fun f hf => hallowed f ?_⟩
      rw [hrun]
      cases o with
      | done => cases hf
      | fail g w =>
        cases hf
        rfl
    have hstart : World.Pairs X { board := board, cancelled := e.cancelled, observer := st }
        { board := board', cancelled := e.cancelled, observer := st' } :=
      ⟨hboards, rfl, rfl, rfl, rfl, rfl, .nil⟩
    obtain ⟨_, hfollow, hpairs⟩ := ho.simulated hR hstart hfollowed
    obtain rfl := hfollow.unique ho'
    rw [hrun, hrun', hseen, hseen']
    refine ⟨Ended.pairs_ended hpairs, ?_⟩
    cases hpairs with
    | done hw | fail _ hw => exact hw.seen

end Executor

end Run

end Trazo
