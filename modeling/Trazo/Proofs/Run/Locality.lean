import Trazo.Proofs.Board.Cells
import Trazo.Proofs.Run.Simulation
import Trazo.Proofs.Run.Transition

/-!
A run knows no more of a board than the cells that its head comes to.

The cells that the head never comes to keep their paint. And if another board, of whatever size,
looks the same around its own head wherever the head of the first comes, then the run on it is the
same, step for step, only somewhere else.
-/

namespace Trazo

/-- The position `dx` further to the right and `dy` further up. -/
def Position.shift (p : Position) (dx dy : Int) : Position := ⟨p.x + dx, p.y + dy⟩

lemma Position.step_shift (p : Position) (dx dy : Int) (d : Direction) :
    (p.shift dx dy).step d = (p.step d).shift dx dy := by
  cases d <;> simp [Position.step, Position.shift] <;> omega

lemma Position.shift_inj {p q : Position} {dx dy : Int} :
    p.shift dx dy = q.shift dx dy ↔ p = q := by
  obtain ⟨x, y⟩ := p
  obtain ⟨x', y'⟩ := q
  simp [Position.shift]

namespace Board

variable {visited : List Position} {dx dy : Int} {b b' after : Board} {c : Command}
  {line : Option Int}

/-! ### What is spared -/

/-- The board `after` is `b` but for the head and the cells at the given places. -/
structure Spares (visited : List Position) (b after : Board) : Prop where
  width : after.width = b.width
  height : after.height = b.height
  phase : after.phase = b.phase
  cell : ∀ p, p ∉ visited → after.cell p = b.cell p

lemma Spares.refl (visited : List Position) (b : Board) : Spares visited b b :=
  ⟨rfl, rfl, rfl, fun _ _ => rfl⟩

/-- One more command spares what the head has not come to. -/
lemma Spares.perform {start : Board} (hs : Spares visited start b) (hb : b.WellFormed)
    (hhead : b.head ∈ visited) (h : b.perform c line = .ok after) :
    Spares (visited ++ [after.head]) start after := by
  obtain ⟨d, -, -, rfl⟩ | ⟨ink, -, rfl⟩ := perform_cases h
  · refine ⟨hs.width, hs.height, hs.phase, fun p hp => ?_⟩
    exact hs.cell p fun hmem => hp (List.mem_append_left _ hmem)
  · refine ⟨hs.width, hs.height, hs.phase, fun p hp => ?_⟩
    have hfree : p ∉ visited := fun hmem => hp (List.mem_append_left _ hmem)
    have hne : p ≠ b.head := by
      rintro rfl
      exact hfree hhead
    rw [hb.cell_inked, if_neg hne]
    exact hs.cell p hfree

/-! ### What looks the same -/

/-- The second board looks, `dx` further to the right and `dy` further up, as the first does at the
given places, and the heads are in such a place. -/
structure Overlays (visited : List Position) (dx dy : Int) (b b' : Board) : Prop where
  shape : b.WellFormed
  shape' : b'.WellFormed
  head : b'.head = b.head.shift dx dy
  mem : b.head ∈ visited
  inside : ∀ p ∈ visited, b'.inBounds (p.shift dx dy) = true
  cell : ∀ p ∈ visited, b'.cell (p.shift dx dy) = b.cell p

lemma Overlays.senses_eq (h : Overlays visited dx dy b b') (q : Sensor) :
    b'.senses q = b.senses q := by
  rw [h.shape.senses_eq, h.shape'.senses_eq, h.head, h.cell _ h.mem]

lemma Overlays.inked (h : Overlays visited dx dy b b') (ink : Cell) :
    Overlays visited dx dy (b.inked ink) (b'.inked ink) := by
  refine ⟨h.shape.inked ink, h.shape'.inked ink, h.head, h.mem, h.inside, fun p hp => ?_⟩
  rw [h.shape.cell_inked, h.shape'.cell_inked, h.head, h.cell p hp]
  simp only [Position.shift_inj]

/-- A command that leads to one of the places leads there on both boards. -/
lemma Overlays.perform (h : Overlays visited dx dy b b') (hp : b.perform c line = .ok after)
    (hmem : after.head ∈ visited) :
    ∃ after', b'.perform c line = .ok after' ∧ Overlays visited dx dy after after' := by
  obtain ⟨d, rfl, hin, rfl⟩ | ⟨ink, hink, rfl⟩ := perform_cases hp
  · have hstep : b'.head.step d = (b.head.step d).shift dx dy := by
      rw [h.head, Position.step_shift]
    have hin' : b'.inBounds (b'.head.step d) = true := by
      rw [hstep]
      exact h.inside _ hmem
    refine ⟨_, congrArg (Except.mapError BoardFailure.refused) (if_pos hin'), ?_⟩
    exact ⟨h.shape.head_step hin, h.shape'.head_step hin', hstep, hmem, h.inside, h.cell⟩
  · refine ⟨_, (hink b' line).trans ?_, h.inked ink⟩
    rw [h.shape'.paint_eq]
    rfl

lemma heads_of_overlays {bs bs' : List Board} (h : List.Forall₂ (Overlays visited dx dy) bs bs') :
    bs'.map (·.head) = (bs.map (·.head)).map (·.shift dx dy) := by
  induction h with
  | nil => rfl
  | cons hfirst _ ih => simp only [List.map_cons, ih, hfirst.head]

end Board

namespace Run

variable {σ ε : Type}

/-- A run on a board that looks the same at the given places does the same. -/
def Simulation.overlay (visited : List Position) (dx dy : Int) : Simulation ε where
  command := id
  boards := Board.Overlays visited dx dy
  shown b := b.head ∈ visited
  allowed f := f.isBoundary = false
  failures f f' := f' = f
  senses q h := h.senses_eq q
  performs h hp hmem := h.perform hp hmem
  refuses h hp hallowed := by
    obtain ⟨d, -, -, rfl⟩ := h.shape.edge_of_perform_error hp
    rw [isBoundary_edge] at hallowed
    cases hallowed
  same _ := rfl

namespace Executor

variable {e : Executor} {observe : Observer σ ε} {raises : Option (Failure ε)} {st : σ}
  {board : Board}

lemma ResultPairs.eq_of_overlay {visited : List Position} {dx dy : Int}
    {x x' : Except (Failure ε) Nat} (h : ResultPairs (.overlay visited dx dy) x x') : x' = x := by
  cases h with
  | ok => rfl
  | error hf => exact congrArg Except.error hf

/-- Where the head has been: on the board at the start, and on those seen since. -/
def headPath (start : Board) (seen : List Board) : List Position :=
  start.head :: seen.map (·.head)

/-- The places of the head during a run: where it starts, and where it is after each command. -/
def path (e : Executor) (observe : Observer σ ε) (st : σ) (board : Board) : List Position :=
  headPath board (e.shown observe st board)

/-- **A run spares** what its head does not come to, and leaves size and phase alone. -/
theorem run_spares (hobserve : observe.Steady raises) (hb : board.WellFormed) :
    board.Spares (e.path observe st board) (e.run observe st board).board := by
  rw [run_eq_map_recorded]
  -- the observer keeps the boards that it is shown, so the path so far is at hand all along
  refine (run_keeps (I := fun (kept : List Board × σ) (b : Board) =>
    b.WellFormed ∧ b.head ∈ headPath board kept.1 ∧ board.Spares (headPath board kept.1) b)
    ?_ ⟨hb, List.mem_cons_self, Board.Spares.refl _ _⟩).2.2
  rintro ⟨seen, st⟩ b c line shown ⟨hshape, hhead, hspares⟩ hperform
  have hpath : headPath board (seen ++ [shown]) = headPath board seen ++ [shown.head] := by
    simp [headPath]
  simp only [Observer.recorded, hobserve.board, hpath]
  refine ⟨hshape.perform hperform, List.mem_append_right _ (List.mem_singleton_self _), ?_⟩
  exact hspares.perform hshape hhead hperform

/-- **A run is local**: let another board look, around its own head, as the first board does at
every place that the head comes to, and let the run on the first not end at an edge. Then the run on
the other ends with the same result and the same counts, its head takes the same path and leaves the
same paint there. No run touches a cell that its head does not come to. -/
theorem run_local (hobserve : observe.Aloof) {b b' : Board} (hb : b.WellFormed)
    (hb' : b'.WellFormed) {dx dy : Int} (hhead : b'.head = b.head.shift dx dy)
    (hcells : ∀ p ∈ e.path (e.paced observe) st b,
      b'.inBounds (p.shift dx dy) = true ∧ b'.cell (p.shift dx dy) = b.cell p)
    (hend : ∀ f, (e.run (e.paced observe) st b).result = .error f → f.isBoundary = false) :
    let r := e.run (e.paced observe) st b
    let r' := e.run (e.paced observe) st b'
    let path := e.path (e.paced observe) st b
    let path' := e.path (e.paced observe) st b'
    r'.result = r.result ∧
      r'.executor.tally.steps = r.executor.tally.steps ∧
      r'.executor.tally.commands = r.executor.tally.commands ∧
      path' = path.map (·.shift dx dy) ∧
      (∀ p ∈ path, r'.board.cell (p.shift dx dy) = r.board.cell p) ∧
      b.Spares path r.board ∧ b'.Spares path' r'.board := by
  intro r r' path path'
  have hpaced := hobserve.paced e
  have hstart : Board.Overlays path dx dy b b' :=
    ⟨hb, hb', hhead, List.mem_cons_self, fun p hp => (hcells p hp).1, fun p hp => (hcells p hp).2⟩
  have hshown : ∀ after ∈ e.shown (e.paced observe) st b, after.head ∈ path :=
    fun after hafter => List.mem_cons_of_mem _ (List.mem_map_of_mem hafter)
  have hrun : r.Pairs (.overlay path dx dy) ((e.translate id).run (e.paced observe) st b') ∧
      List.Forall₂ (Board.Overlays path dx dy) (e.shown (e.paced observe) st b)
        ((e.translate id).shown (e.paced observe) st b') :=
    run_translate hpaced hpaced isBoundary_of_overrun hstart hshown hend
  rw [translate_id] at hrun
  obtain ⟨hended, hboards⟩ := hrun
  refine ⟨?_, hended.steps, hended.commands, ?_, hended.board.cell, run_spares hpaced hb,
    run_spares hpaced hb'⟩
  · exact hended.result.eq_of_overlay
  · simp only [path', path, Executor.path, headPath, List.map_cons, hhead,
      Board.heads_of_overlays hboards]

/-- From the corner of a small board to the middle of a wider one with other paint around: the run
reads the green cell that the head has come to. -/
theorem run_local_wider :
    let main : MainBlock := ⟨[.command (.paint .red) 2, .command (.move .right) 3,
      .branch (.isPainted .green) [.command .clear 5] none 4], 1⟩
    let e : Executor :=
      { program := { main := some main }, table := [], speed := .instant, settings := {}
        tally := freshTally {} }
    let observe : Observer Nat String := fun n b => { state := n + 1, board := b }
    let b : Board := ⟨1, 9, 2, 1, #[#[none, some .green]], ⟨0, 0⟩, .running⟩
    let b' : Board := ⟨1, 9, 4, 3, #[#[none, some .red, none, none],
      #[some .black, none, none, none], #[none, none, some .green, some .green]], ⟨1, 2⟩, .editing⟩
    observe.Aloof ∧ b.WellFormed ∧ b'.WellFormed ∧
      (∀ p ∈ e.path (e.paced observe) 0 b,
        b'.inBounds (p.shift 1 2) = true ∧ b'.cell (p.shift 1 2) = b.cell p) ∧
      (e.run (e.paced observe) 0 b).result = .ok 4 ∧
      (e.run (e.paced observe) 0 b').result = .ok 4 ∧
      (e.run (e.paced observe) 0 b').executor.tally.commands = 3 ∧
      e.path (e.paced observe) 0 b' = [⟨1, 2⟩, ⟨1, 2⟩, ⟨2, 2⟩, ⟨2, 2⟩] ∧
      (e.run (e.paced observe) 0 b').board.cell ⟨3, 2⟩ = some .green := by
  intro main e observe b b'
  have haloof : observe.Aloof := ⟨fun _ _ => rfl, fun _ _ => rfl, fun _ _ => rfl⟩
  have hb : b.WellFormed := ⟨by decide, by decide, by decide, by decide⟩
  have hb' : b'.WellFormed := ⟨by decide, by decide, by decide, by decide⟩
  -- two commands, the condition, the command in it, and the ends of both blocks
  obtain ⟨m, hrun, hheads, hsteps, hcommands⟩ : ∃ m,
      (e.machine main b ([], 0)).run (e.code (e.paced observe).recorded) = (none, m) ∧
        m.observer.1.map (·.head) = [⟨0, 0⟩, ⟨1, 0⟩, ⟨1, 0⟩] ∧ m.tally.steps = 4 ∧
        m.unwind.commands = 3 :=
    ⟨_, (Machine.run_of_more rfl).trans ((Machine.run_of_more rfl).trans
      ((Machine.run_of_more rfl).trans ((Machine.run_of_more rfl).trans
        ((Machine.run_of_more rfl).trans ((Machine.run_of_more rfl).trans
          (Machine.run_of_done rfl)))))), rfl, rfl, rfl⟩
  have hmain : e.program.main = some main := rfl
  have hpath : e.path (e.paced observe) 0 b = [⟨0, 0⟩, ⟨0, 0⟩, ⟨1, 0⟩, ⟨1, 0⟩] := by
    simp only [path, headPath, shown, run, hmain, hrun, hheads]
    rfl
  have hresult : (e.run (e.paced observe) 0 b).result = .ok 4 := by
    rw [run_eq_map_recorded]
    simp only [run, hmain, hrun, Ended.map, hsteps]
  have hcount : (e.run (e.paced observe) 0 b).executor.tally.commands = 3 := by
    rw [run_eq_map_recorded]
    simp only [run, hmain, hrun, Ended.map, hcommands]
  have hcells : ∀ p ∈ e.path (e.paced observe) 0 b,
      b'.inBounds (p.shift 1 2) = true ∧ b'.cell (p.shift 1 2) = b.cell p := by
    rw [hpath]
    decide
  obtain ⟨hr, -, hc, hp, -, -, hspares⟩ :=
    run_local haloof hb hb' rfl hcells (by simp [hresult])
  rw [hpath] at hp
  refine ⟨haloof, hb, hb', hcells, hresult, hr.trans hresult, hc.trans hcount, hp, ?_⟩
  refine hspares.cell _ ?_
  rw [hp]
  decide

end Executor

end Run

end Trazo
