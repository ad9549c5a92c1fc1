import Trazo.Proofs.Board.Cells
import Trazo.Proofs.Run.Simulation
import Trazo.Proofs.Run.Unrolling

/-!
Runs in a mirror.

A board can be mirrored left to right, or transposed, so that its columns become rows. If the moves
of a program are turned along with the board, each run becomes its own image: the same counts, the
image of every board, and at an edge the image of the place and of the direction.
-/

namespace Trazo

/-! ### Grids cell by cell -/

/-- The grid whose cells are given by a function of their places. -/
def Grid.tabulate (width height : Nat) (f : Position → Cell) : Grid :=
  Array.ofFn fun y : Fin height => Array.ofFn fun x : Fin width => f ⟨x, y⟩

lemma Grid.measures_tabulate (width height : Nat) (f : Position → Cell) :
    (Grid.tabulate width height f).Measures width height := by
  refine ⟨by simp [Grid.tabulate], fun row hrow => ?_⟩
  obtain ⟨y, rfl⟩ := Array.mem_ofFn.mp hrow
  simp

lemma Grid.get_tabulate {width height : Nat} {f : Position → Cell} {p : Position}
    (hp : p.Within width height) : (Grid.tabulate width height f).get p = f p := by
  obtain ⟨hy, hx, hget⟩ := (Grid.measures_tabulate width height f).get_eq hp
  obtain ⟨hx0, -, hy0, -⟩ := hp
  rw [hget]
  simp only [Grid.tabulate, Array.getElem_ofFn]
  congr
  · omega
  · omega

/-! ### The two symmetries -/

inductive Symmetry
  /-- Left and right change places. -/
  | mirror
  /-- Columns become rows, the bottom left corner stays. -/
  | transpose

namespace Symmetry

def direction : Symmetry → Direction → Direction
  | .mirror, .left => .right
  | .mirror, .right => .left
  | .mirror, .up => .up
  | .mirror, .down => .down
  | .transpose, .up => .right
  | .transpose, .right => .up
  | .transpose, .down => .left
  | .transpose, .left => .down

/-- Moves are turned, all other commands stay. -/
def command (g : Symmetry) : Command → Command
  | .move d => .move (g.direction d)
  | .paint color => .paint color
  | .clear => .clear

/-- The image of a place on a board of the given width. -/
def position : Symmetry → Nat → Position → Position
  | .mirror, width, p => ⟨width - 1 - p.x, p.y⟩
  | .transpose, _, p => ⟨p.y, p.x⟩

/-- The width of the image of a board of this size. -/
def width : Symmetry → Nat → Nat → Nat
  | .mirror, width, _ => width
  | .transpose, _, height => height

/-- The height of the image of a board of this size. -/
def height : Symmetry → Nat → Nat → Nat
  | .mirror, _, height => height
  | .transpose, width, _ => width

/-- The image of a board: head and cells are where the images of their places are. -/
def board (g : Symmetry) (b : Board) : Board :=
  let width := g.width b.width b.height
  let height := g.height b.width b.height
  { b with
    width := width
    height := height
    grid := .tabulate width height fun p => b.grid.get (g.position width p)
    head := g.position b.width b.head }

/-- The image of what a board says at its edge. -/
def failure (g : Symmetry) (width : Nat) : BoardFailure → BoardFailure
  | .refused (.edge head d line) => .refused (.edge (g.position width head) (g.direction d) line)
  | x => x

variable (g : Symmetry) {b : Board} {p q : Position}

lemma eq_position_iff {w h : Nat} : q = g.position w p ↔ g.position (g.width w h) q = p := by
  obtain ⟨x, y⟩ := p
  obtain ⟨x', y'⟩ := q
  cases g <;> simp only [position, width, Position.mk.injEq] <;> omega

lemma position_position (w h : Nat) (p : Position) :
    g.position (g.width w h) (g.position w p) = p :=
  g.eq_position_iff.mp rfl

lemma within_position {w h : Nat} :
    (g.position w p).Within (g.width w h) (g.height w h) ↔ p.Within w h := by
  cases g <;> simp only [position, width, height, Position.Within] <;> omega

lemma within_position_back {w h : Nat} (hp : p.Within (g.width w h) (g.height w h)) :
    (g.position (g.width w h) p).Within w h := by
  have hback : p = g.position w (g.position (g.width w h) p) := g.eq_position_iff.mpr rfl
  rw [hback] at hp
  exact g.within_position.mp hp

lemma step_position (w : Nat) (p : Position) (d : Direction) :
    (g.position w p).step (g.direction d) = g.position w (p.step d) := by
  cases g <;> cases d <;> simp [position, direction, Position.step] <;> omega

lemma inBounds_board (b : Board) (p : Position) :
    (g.board b).inBounds (g.position b.width p) = b.inBounds p := by
  rw [Bool.eq_iff_iff, ← Board.within_iff_inBounds, ← Board.within_iff_inBounds]
  exact g.within_position

/-- The image of a board shows at the image of a place what the board shows there. -/
lemma cell_board (b : Board) (p : Position) :
    (g.board b).cell (g.position b.width p) = b.cell p := by
  rw [Board.cell, Board.cell, g.inBounds_board]
  split
  · rename_i hp
    have hwithin := g.within_position.mpr ((Board.within_iff_inBounds b p).mpr hp)
    rw [board, Grid.get_tabulate hwithin, g.position_position]
  · rfl

lemma wellFormed_board (hb : b.WellFormed) : (g.board b).WellFormed := by
  refine ⟨Grid.measures_tabulate _ _ _, g.within_position.mpr hb.head, ?_, ?_⟩
  · cases g
    exacts [hb.width, hb.height]
  · cases g
    exacts [hb.height, hb.width]

/-- The image of a painted board is painted at the image of the head. -/
lemma inked_board (hb : b.WellFormed) (ink : Cell) :
    (g.board b).inked ink = g.board (b.inked ink) := by
  have hgrid : (g.board b).grid.set (g.board b).head ink = (g.board (b.inked ink)).grid := by
    have hb' := g.wellFormed_board hb
    refine (hb'.grid.set _ _).ext (Grid.measures_tabulate _ _ _) fun p hp => ?_
    have hp' := g.within_position_back hp
    have hleft : (g.board b).grid.get p = b.grid.get (g.position _ p) := Grid.get_tabulate hp
    have hright : (g.board (b.inked ink)).grid.get p =
        (b.grid.set b.head ink).get (g.position (g.width b.width b.height) p) :=
      Grid.get_tabulate hp
    rw [hb'.grid.get_set hb'.head hp, hleft, hright, hb.grid.get_set hb.head hp']
    exact if_congr g.eq_position_iff rfl rfl
  rw [Board.inked, hgrid]
  rfl

lemma paint_board (hb : b.WellFormed) (ink : Cell) :
    (g.board b).paint ink = (b.paint ink).map g.board := by
  rw [hb.paint_eq, (g.wellFormed_board hb).paint_eq, g.inked_board hb]
  rfl

/-- **Commands and images** go together: turned and given on the image of a board, a command has the
image of its effect. -/
theorem perform_board (hb : b.WellFormed) (c : Command) (line : Option Int) :
    (g.board b).perform (g.command c) line =
      ((b.perform c line).map g.board).mapError (g.failure b.width) := by
  cases c with
  | move d =>
    have hstep : (g.board b).head.step (g.direction d) = g.position b.width (b.head.step d) :=
      g.step_position b.width b.head d
    simp only [command, Board.perform, Board.move, hstep, g.inBounds_board]
    split <;> rfl
  | paint | clear =>
    simp only [command, Board.perform, g.paint_board hb, hb.paint_eq]
    rfl

lemma senses_board (hb : b.WellFormed) (q : Sensor) : (g.board b).senses q = b.senses q := by
  have hhead : (g.board b).cell (g.board b).head = b.cell b.head := g.cell_board b b.head
  rw [hb.senses_eq, (g.wellFormed_board hb).senses_eq, hhead]

/-- How a run ends, and how its image ends: with the same result, or at the image of an edge, after
the same number of steps and on the same line. -/
inductive Matches {ε : Type} (g : Symmetry) (width : Nat) :
    Except (Failure ε) Nat → Except (Failure ε) Nat → Prop
  | ok (steps : Nat) : Matches g width (.ok steps) (.ok steps)
  | error {f : Failure ε} (hf : f.isBoundary = false) : Matches g width (.error f) (.error f)
  | edge (head : Position) (d : Direction) (line : Option Int) :
      Matches g width (.error (.ofBoardFault (.edge head d line)))
        (.error (.ofBoardFault (.edge (g.position width head) (g.direction d) line)))

end Symmetry

namespace Run

variable {σ ε : Type}

/-- The run of the turned program on the image of a board of the given width is the image of a
run. -/
def Simulation.image (g : Symmetry) (width : Nat) : Simulation ε where
  command := g.command
  boards b b' := b.WellFormed ∧ b.width = width ∧ b' = g.board b
  shown _ := True
  allowed _ := True
  failures f f' := g.Matches width (.error f) (.error f')
  senses := by
    rintro b _ q ⟨hb, -, rfl⟩
    exact g.senses_board hb q
  performs := by
    rintro b _ after c line ⟨hb, rfl, rfl⟩ hp -
    refine ⟨g.board after, ?_, hb.perform hp, ?_, rfl⟩
    · rw [g.perform_board hb, hp]
      rfl
    · obtain ⟨d, -, -, rfl⟩ | ⟨ink, -, rfl⟩ := Board.perform_cases hp <;> rfl
  refuses := by
    rintro b _ c line x ⟨hb, rfl, rfl⟩ hp -
    refine ⟨g.failure b.width x, ?_, ?_⟩
    · rw [g.perform_board hb, hp]
      rfl
    · obtain ⟨d, -, -, rfl⟩ := hb.edge_of_perform_error hp
      exact .edge b.head d line
  same hf := .error hf

variable {g : Symmetry} {width : Nat}

lemma Executor.ResultPairs.matches_image {x x' : Except (Failure ε) Nat}
    (h : ResultPairs (.image g width) x x') : g.Matches width x x' := by
  cases h with
  | ok steps => exact .ok steps
  | error hf => exact hf

lemma boards_of_image {bs bs' : List Board}
    (h : List.Forall₂ (Simulation.image (ε := ε) g width).boards bs bs') :
    bs' = bs.map g.board := by
  induction h with
  | nil => rfl
  | cons hfirst _ ih => rw [List.map_cons, ← ih, hfirst.2.2]

/-- The account `a'` is the image of the account `a` of a run on a board of the given width. -/
structure Account.Images (g : Symmetry) (width : Nat) (a a' : Account σ ε) : Prop where
  result : g.Matches width a.result a'.result
  board : a'.board = g.board a.board
  steps : a'.steps = a.steps
  commands : a'.commands = a.commands
  calls : a'.calls = a.calls
  pauses : a'.pauses = a.pauses
  shown : a'.shown = a.shown.map g.board

lemma Executor.create_translate (f : Command → Command) (program : Program) (speed : Value)
    (s : Settings) :
    (create (program.translate f) speed s : Except (Failure ε) _) =
      (create program speed s).map fun made => (made.1.translate f, made.2) := by
  have halike : program.Alike (fun b b' => b' = translateBlock f b) (program.translate f) := by
    constructor
    · rw [Program.translate]
      cases program.main with
      | none => exact .none
      | some main => exact .some ⟨rfl, rfl⟩
    · exact List.forall₂_map_right_iff.mpr (List.forall₂_same.mpr fun p _ => ⟨rfl, rfl, rfl⟩)
  rw [create_alike halike]
  cases hcreate : (create program speed s : Except (Failure ε) _) with
  | error x => rfl
  | ok made =>
    obtain ⟨e, logs⟩ := made
    obtain ⟨main, chosen, -, -, -, rfl⟩ := exists_of_create hcreate
    rfl

lemma accountOf_eq_map (program : Program) (speed : Value) (s : Settings)
    (observe : Observer σ ε) (st : σ) (b : Board) :
    accountOf program speed s observe st b = (Executor.create program speed s).map fun made =>
      made.1.account (made.1.paced observe) st b made.2 := by
  unfold accountOf
  cases (Executor.create program speed s : Except (Failure ε) _) <;> rfl

/-- The run of the turned program is the image of the run of the program. -/
lemma Executor.account_image (g : Symmetry) (e : Executor) {observe : Observer σ ε}
    (hobserve : observe.Aloof) (st : σ) {b : Board} (hb : b.WellFormed) (logs : List Log.Record) :
    (e.account (e.paced observe) st b logs).Images g b.width
      ((e.translate g.command).account (e.paced observe) st (g.board b) logs) := by
  have hpaced := hobserve.paced e
  have hstart : (Simulation.image (ε := ε) g b.width).boards b (g.board b) := ⟨hb, rfl, rfl⟩
  obtain ⟨hended, hshown⟩ :
      (e.run (e.paced observe) st b).Pairs (.image g b.width)
          ((e.translate g.command).run (e.paced observe) st (g.board b)) ∧
        List.Forall₂ (Simulation.image (ε := ε) g b.width).boards (e.shown (e.paced observe) st b)
          ((e.translate g.command).shown (e.paced observe) st (g.board b)) :=
    run_translate hpaced hpaced isBoundary_of_overrun hstart (fun _ _ => trivial) fun _ _ => trivial
  exact ⟨hended.result.matches_image, hended.board.2.2, hended.steps, hended.commands,
    hended.calls, hended.pauses, boards_of_image hshown⟩

/-- **Every run has its mirror image.** Mirrored or transposed together with its board, a program is
refused for the same reason, or its run ends with the same counts on the image of the board, having
shown the images of the same boards. It ends with the same result, too, unless the head would have
left the board: then the place and the direction are the images. -/
theorem accountOf_symmetric (g : Symmetry) (program : Program) (speed : Value) (s : Settings)
    {observe : Observer σ ε} (hobserve : observe.Aloof) (st : σ) {b : Board} (hb : b.WellFormed) :
    let image := accountOf (program.translate g.command) speed s observe st (g.board b)
    (∀ f, accountOf program speed s observe st b = .error f → image = .error f) ∧
      ∀ a, accountOf program speed s observe st b = .ok a →
        ∃ a', image = .ok a' ∧ a.Images g b.width a' := by
  intro image
  have himage : image = (Executor.create program speed s).map fun made =>
      (made.1.translate g.command).account (made.1.paced observe) st (g.board b) made.2 := by
    simp only [image, accountOf_eq_map, Executor.create_translate]
    cases (Executor.create program speed s : Except (Failure ε) _) <;> rfl
  rw [accountOf_eq_map, himage]
  cases (Executor.create program speed s : Except (Failure ε) _) with
  | error x => exact ⟨fun f hf => hf, fun a ha => nomatch ha⟩
  | ok made =>
    refine ⟨fun f hf => (nomatch hf), fun a ha => ?_⟩
    obtain rfl := Except.ok.inj ha
    exact ⟨_, rfl, made.1.account_image g hobserve st hb made.2⟩

/-- A transposed board: what leaves the third column at the top leaves the third row on the
right. -/
theorem accountOf_symmetric_transposed :
    let program : Program :=
      ⟨some ⟨[.command (.paint .red) 2, .loop 2 [.command (.move .up) 4] 3], 1⟩, []⟩
    let observe : Observer Nat String := fun n b => { state := n + 1, board := b }
    let b : Board := ⟨1, 9, 3, 2, .empty 3 2, ⟨2, 0⟩, .running⟩
    observe.Aloof ∧ b.WellFormed ∧
      ∃ a a', accountOf program (.text "instant") {} observe 0 b = .ok a ∧
        a.result = .error (.diagnostic (BoardFault.edge ⟨2, 1⟩ .up (some 4)).diagnostic) ∧
        accountOf (program.translate Symmetry.transpose.command) (.text "instant") {} observe 0
          (Symmetry.transpose.board b) = .ok a' ∧
        a.Images .transpose 3 a' := by
  intro program observe b
  have haloof : observe.Aloof := ⟨fun _ _ => rfl, fun _ _ => rfl, fun _ _ => rfl⟩
  have hb : b.WellFormed := ⟨Grid.measures_empty 3 2, by decide, by decide, by decide⟩
  have hspeed : Speed.resolve ({} : Settings).speed (.text "instant") = .ok (.instant, []) := rfl
  have hcreate := Executor.create_eq (ε := String) (show program.main = some _ from rfl)
    (by decide) hspeed
  have haccount := accountOf_eq_map program (.text "instant") {} observe 0 b
  rw [hcreate] at haccount
  obtain ⟨a', himage, himages⟩ :=
    (accountOf_symmetric .transpose program (.text "instant") {} haloof 0 hb).2 _ haccount
  refine ⟨haloof, hb, _, a', haccount, ?_, himage, himages⟩
  -- the paint, into the loop, one move, the end of the pass, and the move that fails
  refine (Executor.result_run (show _ = some _ from rfl) _ _ _).trans ?_
  rw [(Machine.run_of_more rfl).trans ((Machine.run_of_more rfl).trans
    ((Machine.run_of_more rfl).trans ((Machine.run_of_more rfl).trans
      (Machine.run_of_halt rfl))))]
  exact Eq.trans (b := .error (.ofBoardFault (.edge ⟨2, 1⟩ .up (some 4)))) rfl rfl

end Run

end Trazo
