import Trazo.Proofs.Board.Cells

/-!
Drawings of boards can be read back.

A drawing has a line for each row, the top row first, and three characters for each cell of it. Only
the blank behind the last cell of a row may be missing, as the sign of a cell is never blank. So the
lines tell the height and the cells of a line the width, and one of all the cells is in brackets.
-/

namespace Trazo

namespace Drawing

/-! ### Reading -/

/-- The cell that a sign stands for. -/
def cellOf : Char → Cell
  | 'B' => some .black
  | 'R' => some .red
  | 'G' => some .green
  | _ => none

/-- The cells of a line, each with whether the head is on it. -/
def cells : List Char → List (Bool × Cell)
  | left :: sign :: _ :: r => (left = '[', cellOf sign) :: cells r
  | [left, sign] => [(left = '[', cellOf sign)]
  | _ => []

/-- The cells of all lines, the bottom row first. -/
def rows (text : String) : List (List (Bool × Cell)) :=
  ((text.toList.splitOn '\n').map cells).reverse

/-- The place of the first cell that the head is on. -/
def marked (rows : List (List (Bool × Cell))) : Position :=
  let y := rows.findIdx fun row => row.any (·.1)
  ⟨(rows.getD y []).findIdx (·.1), y⟩

/-- What a drawing shows. -/
def read (text : String) : Snapshot :=
  let rows := rows text
  { width := (rows.headD []).length
    height := rows.length
    grid := (rows.map fun row => (row.map (·.2)).toArray).toArray
    head := marked rows }

end Drawing

namespace Board

open Drawing

variable {b b' : Board}

lemma cellOf_symbol (c : Cell) : cellOf (symbol c) = c := by
  rcases c with _ | (_ | _ | _) <;> rfl

lemma symbol_ne_blank (c : Cell) : symbol c ≠ ' ' := by
  rcases c with _ | (_ | _ | _) <;> decide

lemma symbol_ne_newline (c : Cell) : symbol c ≠ '\n' := by
  rcases c with _ | (_ | _ | _) <;> decide

/-! ### Lines -/

/-- The places of a row, from the left. -/
def places (width y : Nat) : List Position := (List.range width).map fun x : Nat => ⟨x, y⟩

/-- What a drawing shows of a cell. -/
def shown (b : Board) (p : Position) : Bool × Cell := (p = b.head, b.cell p)

/-- A cell at the end of a line, where a blank is left out. -/
def drawLast (b : Board) (p : Position) : List Char :=
  if p = b.head then ['[', symbol (b.cell p), ']'] else [' ', symbol (b.cell p)]

lemma places_succ (n y : Nat) : places (n + 1) y = places n y ++ [⟨n, y⟩] := by
  simp [places, List.range_succ]

/-- Only the blank behind the last cell is left out. -/
lemma drawRow_eq {n : Nat} (hn : b.width = n + 1) (y : Nat) :
    b.drawRow y = (places n y).flatMap b.drawCell ++ b.drawLast ⟨n, y⟩ := by
  have hs := symbol_ne_blank (b.cell ⟨n, y⟩)
  have hcells : ((List.range b.width).flatMap fun x : Nat => b.drawCell ⟨x, y⟩) =
      (places n y).flatMap b.drawCell ++ b.drawCell ⟨n, y⟩ := by
    simp [places, hn, List.range_succ, List.flatMap_map]
  rw [drawRow, hcells, drawLast, drawCell]
  split <;> simp [hs]

lemma cells_drawCell_append (p : Position) (r : List Char) :
    cells (b.drawCell p ++ r) = b.shown p :: cells r := by
  unfold drawCell shown
  split <;> simp_all [cells, cellOf_symbol]

lemma cells_drawLast (p : Position) : cells (b.drawLast p) = [b.shown p] := by
  unfold drawLast shown
  split <;> simp_all [cells, cellOf_symbol]

lemma cells_flatMap_append (ps : List Position) (r : List Char) :
    cells (ps.flatMap b.drawCell ++ r) = ps.map b.shown ++ cells r := by
  induction ps with
  | nil => rfl
  | cons p ps ih =>
    rw [List.flatMap_cons, List.append_assoc, cells_drawCell_append, ih, List.map_cons,
      List.cons_append]

/-- **A line** shows every cell of its row. -/
lemma cells_drawRow (hb : 0 < b.width) (y : Nat) :
    cells (b.drawRow y) = (places b.width y).map b.shown := by
  obtain ⟨n, hn⟩ := Nat.exists_eq_succ_of_ne_zero (Nat.ne_of_gt hb)
  rw [drawRow_eq hn, cells_flatMap_append, cells_drawLast, hn, places_succ, List.map_append]
  rfl

lemma newline_notMem_drawRow (y : Nat) : '\n' ∉ b.drawRow y := by
  intro h
  have hcells := (List.dropWhile_suffix _).subset (List.mem_reverse.mp h)
  obtain ⟨x, -, hx⟩ := List.mem_flatMap.mp (List.mem_reverse.mp hcells)
  unfold drawCell at hx
  split at hx <;> simp [(symbol_ne_newline _).symm] at hx

/-! ### Whole drawings -/

/-- **A drawing** shows every cell of every row. -/
lemma rows_drawRows (hwidth : 0 < b.width) (hheight : 0 < b.height) :
    rows b.drawRows = (List.range b.height).map fun y => (places b.width y).map b.shown := by
  have hlines : b.drawRows.toList.splitOn '\n' = (List.range b.height).reverse.map b.drawRow := by
    have hdraw : b.drawRows.toList =
        ['\n'].intercalate ((List.range b.height).reverse.map b.drawRow) := by
      simp [drawRows, String.toList_intercalate, Function.comp_def]
    rw [hdraw]
    refine List.splitOn_intercalate '\n' (fun l hl => ?_) ?_
    · obtain ⟨y, -, rfl⟩ := List.mem_map.mp hl
      exact newline_notMem_drawRow y
    · simpa using Nat.ne_of_gt hheight
  simp [rows, hlines, Function.comp_def, cells_drawRow hwidth]

/-- Of a sequence with one thing to be found, its place is found. -/
lemma findIdx_map_range {α : Type} {n i : Nat} {f : Nat → α} {p : α → Bool} (hi : i < n)
    (h : ∀ j < n, p (f j) = decide (j = i)) : ((List.range n).map f).findIdx p = i := by
  rw [List.findIdx_eq (by simpa using hi)]
  refine ⟨by simp [h i hi], fun j hj => ?_⟩
  simpa [h j (Nat.lt_trans hj hi)] using Nat.ne_of_lt hj

variable {width height : Nat}

/-- The head is found in the only row and at the only cell that are marked. -/
lemma marked_map_shown (h : b.head.Within width height) :
    marked ((List.range height).map fun y => (places width y).map b.shown) = b.head := by
  obtain ⟨x, y, hx, hy, hhead⟩ : ∃ x y : Nat, x < width ∧ y < height ∧ b.head = ⟨x, y⟩ := by
    obtain ⟨hx0, hx, hy0, hy⟩ := h
    refine ⟨b.head.x.toNat, b.head.y.toNat, by omega, by omega, ?_⟩
    rw [Int.toNat_of_nonneg hx0, Int.toNat_of_nonneg hy0]
  have hmark (i j : Nat) : (b.shown ⟨i, j⟩).1 = decide (i = x ∧ j = y) := by
    simp only [shown, hhead, Position.mk.injEq, Int.natCast_inj]
  have hrow : ((List.range height).map fun y => (places width y).map b.shown).findIdx
      (fun row => row.any (·.1)) = y := by
    refine findIdx_map_range hy fun j _ => ?_
    rw [Bool.eq_iff_iff]
    simp only [places, List.any_map, List.any_eq_true, List.mem_range, Function.comp_apply, hmark,
      decide_eq_true_eq]
    constructor
    · rintro ⟨i, -, -, hj⟩
      exact hj
    · rintro rfl
      exact ⟨x, hx, rfl, rfl⟩
  have hcell : ((places width y).map b.shown).findIdx (·.1) = x := by
    rw [places, List.map_map]
    exact findIdx_map_range hx fun j _ => by simp [hmark]
  simp [marked, hrow, hy, hcell, hhead]

/-! ### Reading drawings back -/

/-- The grid of the cells that are shown is the grid of the board. -/
lemma grid_map_shown (h : b.WellFormed) :
    (((List.range b.height).map fun y => (places b.width y).map b.shown).map
      fun row => (row.map (·.2)).toArray).toArray = b.grid := by
  have hmeasures : Grid.Measures
      (((List.range b.height).map fun y => (places b.width y).map b.shown).map
        fun row => (row.map (·.2)).toArray).toArray b.width b.height :=
    ⟨by simp, by simp [places]⟩
  refine hmeasures.ext h.grid fun p hp => ?_
  rw [← cell_of_inBounds ((within_iff_inBounds _ _).mp hp)]
  obtain ⟨hx0, hx, hy0, hy⟩ := hp
  have hp : (⟨p.x.toNat, p.y.toNat⟩ : Position) = p := by
    rw [Int.toNat_of_nonneg hx0, Int.toNat_of_nonneg hy0]
  have hx' : p.x.toNat < b.width := by omega
  have hy' : p.y.toNat < b.height := by omega
  simp only [Grid.get, places, List.getElem?_toArray, List.getElem?_map, List.getElem?_range hy',
    List.getElem?_range hx', Option.map_some, Option.bind_some, Option.join_some, shown, hp]

/-- **Round trip**: the drawing of a board shows its size, its cells and its head. -/
theorem read_drawRows (h : b.WellFormed) : Drawing.read b.drawRows = b.snapshot := by
  obtain ⟨hwidth, hheight⟩ : 0 < b.width ∧ 0 < b.height := by
    obtain ⟨_, _, _, _⟩ := h.head
    omega
  have hrows := rows_drawRows hwidth hheight
  have hfirst : ((rows b.drawRows).headD []).length = b.width := by
    obtain ⟨n, hn⟩ := Nat.exists_eq_succ_of_ne_zero (Nat.ne_of_gt hheight)
    rw [hrows, hn, List.range_succ_eq_map]
    simp [places]
  rw [Drawing.read, hfirst, hrows, grid_map_shown h, marked_map_shown h.head, List.length_map,
    List.length_range]
  rfl

/-- No cell of a well-formed board is missing. -/
lemma draw_eq (h : b.WellFormed) : b.draw = .ok b.drawRows := by
  have hmissing : b.missing? = none := by
    unfold missing?
    split
    · rfl
    · rw [if_neg (by rw [h.grid.1]; exact Nat.lt_irrefl _), List.findSome?_eq_none_iff]
      intro row hrow
      have hmem := List.mem_of_mem_take (List.mem_reverse.mp hrow)
      have hsize : row.size = b.width := h.grid.2 row (Array.mem_toList_iff.mp hmem)
      simp [hsize]
  simp only [draw, hmissing]

/-- Boards of one size with the same cells and head have the same drawing. -/
lemma drawRows_congr (hwidth : b.width = b'.width) (hheight : b.height = b'.height)
    (hhead : b.head = b'.head) (hcell : ∀ p, b.cell p = b'.cell p) : b.drawRows = b'.drawRows := by
  simp only [drawRows, drawRow, drawCell, hwidth, hheight, hhead, hcell]

lemma look_snapshot (h : b.WellFormed) (p : Position) : b.snapshot.look p = .ok (b.cell p) := by
  rw [← h.look_eq p, look]
  unfold Snapshot.look
  by_cases hp : b.inBounds p = true
  · have hcond : (0 ≤ p.x && p.x < b.snapshot.width && 0 ≤ p.y && p.y < b.snapshot.height) = true :=
      hp
    rw [if_pos hcond, if_pos hp, cell_of_inBounds hp]
    rfl
  · have hcond : ¬ (0 ≤ p.x && p.x < b.snapshot.width && 0 ≤ p.y &&
        p.y < b.snapshot.height) = true := hp
    rw [if_neg hcond, if_neg hp, cell, if_neg hp]

/-- **A drawing loses nothing.** Every well-formed board has a drawing. What it shows is the board's
size, head and cells, so the drawings of two boards are the same only if these are. -/
theorem draw_eq_draw_iff (h : b.WellFormed) (h' : b'.WellFormed) :
    (∃ text, b.draw = .ok text ∧ Drawing.read text = b.snapshot ∧
        ∀ p, (Drawing.read text).look p = .ok (b.cell p)) ∧
      (b.draw = b'.draw ↔
        b.width = b'.width ∧ b.height = b'.height ∧ b.head = b'.head ∧
          ∀ p, b.cell p = b'.cell p) := by
  have hread := read_drawRows h
  rw [draw_eq h, draw_eq h']
  refine ⟨⟨b.drawRows, rfl, hread, fun p => ?_⟩, fun he => ?_, ?_⟩
  · rw [hread, look_snapshot h]
  · have hsnapshot : b.snapshot = b'.snapshot := by
      rw [← hread, Except.ok.inj he, read_drawRows h']
    refine ⟨congrArg Snapshot.width hsnapshot, congrArg Snapshot.height hsnapshot,
      congrArg Snapshot.head hsnapshot, fun p => ?_⟩
    have hlook := congrArg (Snapshot.look · p) hsnapshot
    exact Except.ok.inj ((look_snapshot h p).symm.trans (hlook.trans (look_snapshot h' p)))
  · rintro ⟨hwidth, hheight, hhead, hcell⟩
    rw [drawRows_congr hwidth hheight hhead hcell]

/-- With the head at the end of a row, the brackets stand where a blank is left out otherwise. -/
theorem draw_eq_draw_iff_head :
    let b : Board := ⟨1, 4, 2, 2, (Grid.empty 2 2).set ⟨1, 0⟩ (some .red), ⟨1, 1⟩, .editing⟩
    let b' : Board := { b with head := ⟨1, 0⟩ }
    b.WellFormed ∧ b'.WellFormed ∧ b.draw = .ok " . [.]\n .  R" ∧
      b'.draw = .ok " .  .\n . [R]" ∧ Drawing.read " . [.]\n .  R" = b.snapshot ∧
      b.draw ≠ b'.draw := by
  intro b b'
  have hgrid := (Grid.measures_empty 2 2).set ⟨1, 0⟩ (some .red)
  have hb : b.WellFormed := ⟨hgrid, by decide, by decide, by decide⟩
  have hb' : b'.WellFormed := ⟨hgrid, by decide, by decide, by decide⟩
  have hdraw : b.draw = .ok " . [.]\n .  R" := congrArg Except.ok (by decide)
  have hdraw' : b'.draw = .ok " .  .\n . [R]" := congrArg Except.ok (by decide)
  obtain ⟨⟨text, htext, hread, -⟩, hiff⟩ := draw_eq_draw_iff hb hb'
  obtain rfl := Except.ok.inj (hdraw.symm.trans htext)
  refine ⟨hb, hb', hdraw, hdraw', hread, fun he => ?_⟩
  exact absurd (hiff.mp he).2.2.1 (by decide)

end Board

end Trazo
