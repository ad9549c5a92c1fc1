import Trazo.Proofs.Board.Operation

/-!
Cells of a well-formed board: they make up the grid, every one of them can be read and written, and
painting changes the one under the head.
-/

namespace Trazo

instance (g : Grid) (width height : Nat) : Decidable (g.Measures width height) :=
  inferInstanceAs (Decidable (_ ∧ _))

variable {g g' : Grid} {width height : Nat} {p q : Position}

/-- On the grid a cell can be looked up. -/
lemma Grid.Measures.get_eq (hg : g.Measures width height) (hp : p.Within width height) :
    ∃ (hy : p.y.toNat < g.size) (hx : p.x.toNat < g[p.y.toNat].size),
      g.get p = g[p.y.toNat][p.x.toNat] := by
  obtain ⟨hx0, hx, hy0, hy⟩ := hp
  have hsize : p.y.toNat < g.size := by rw [hg.1]; omega
  have hrow : g[p.y.toNat].size = width := hg.2 _ (Array.getElem_mem hsize)
  have hcell : p.x.toNat < g[p.y.toNat].size := by omega
  refine ⟨hsize, hcell, ?_⟩
  simp [Grid.get, Array.getElem?_eq_getElem hsize, Array.getElem?_eq_getElem hcell]

lemma Grid.Measures.get_set (hg : g.Measures width height) (hp : p.Within width height)
    (hq : q.Within width height) (c : Cell) :
    (g.set p c).get q = if q = p then c else g.get q := by
  obtain ⟨hy, hx, hget⟩ := hg.get_eq hq
  obtain ⟨hy', hx', hget'⟩ := (hg.set p c).get_eq hq
  rw [hget, hget']
  by_cases hrow : q.y = p.y
  · by_cases hcell : q.x = p.x
    · have hqp : q = p := by
        obtain ⟨x, y⟩ := q
        obtain ⟨x', y'⟩ := p
        simp_all
      subst hqp
      simp [Grid.set, Array.getElem_modify]
    · have hne : p.x.toNat ≠ q.x.toNat := by
        obtain ⟨_, _, _, _⟩ := hp
        obtain ⟨_, _, _, _⟩ := hq
        omega
      have hqp : q ≠ p := fun h => hcell (congrArg Position.x h)
      simp [Grid.set, Array.getElem_modify, hrow, hne, hqp]
  · have hne : p.y.toNat ≠ q.y.toNat := by
      obtain ⟨_, _, _, _⟩ := hp
      obtain ⟨_, _, _, _⟩ := hq
      omega
    have hqp : q ≠ p := fun h => hrow (congrArg Position.y h)
    simp [Grid.set, Array.getElem_modify, hne, hqp]

/-- Grids of one size with the same cells are the same. -/
lemma Grid.Measures.ext (hg : g.Measures width height) (hg' : g'.Measures width height)
    (h : ∀ p : Position, p.Within width height → g.get p = g'.get p) : g = g' := by
  refine Array.ext (hg.1.trans hg'.1.symm) fun y hy hy' => ?_
  have hrow : g[y].size = width := hg.2 _ (Array.getElem_mem hy)
  have hrow' : g'[y].size = width := hg'.2 _ (Array.getElem_mem hy')
  refine Array.ext (hrow.trans hrow'.symm) fun x hx hx' => ?_
  have hheight : g.size = height := hg.1
  have hwithin : (⟨x, y⟩ : Position).Within width height := by
    simp only [Position.Within]
    omega
  obtain ⟨_, _, hget⟩ := hg.get_eq hwithin
  obtain ⟨_, _, hget'⟩ := hg'.get_eq hwithin
  have hcell := h _ hwithin
  rw [hget, hget'] at hcell
  exact hcell

namespace Board

variable {b after : Board} {c : Command} {line : Option Int}

lemma cell_of_inBounds (h : b.inBounds p = true) : b.cell p = b.grid.get p := if_pos h

lemma WellFormed.inBounds_head (h : b.WellFormed) : b.inBounds b.head = true :=
  (within_iff_inBounds _ _).mp h.head

/-- Every cell of a well-formed board is there. -/
lemma WellFormed.reach (h : b.WellFormed) (hp : b.inBounds p = true) (written : Bool) :
    b.grid.reach p written = .ok () := by
  obtain ⟨hy, hx, -⟩ := h.grid.get_eq ((within_iff_inBounds b p).mpr hp)
  simp only [Grid.reach, Array.getElem?_eq_getElem hy, hx, if_true]

lemma WellFormed.look_eq (h : b.WellFormed) (p : Position) : b.look p = .ok (b.cell p) := by
  unfold look
  split
  · rename_i hp
    rw [h.reach hp]
    rfl
  · rfl

lemma WellFormed.senses_eq (h : b.WellFormed) (q : Sensor) :
    b.senses q = .ok (q.holds (b.cell b.head)) := by
  rw [senses, h.look_eq]
  rfl

/-- The board with a paint, or none, on the cell under the head. -/
def inked (b : Board) (ink : Cell) : Board := { b with grid := b.grid.set b.head ink }

lemma WellFormed.paint_eq (h : b.WellFormed) (ink : Cell) : b.paint ink = .ok (b.inked ink) := by
  rw [paint, write, h.reach h.inBounds_head]
  rfl

lemma inked_of_paint {ink : Cell} (h : b.paint ink = .ok after) : after = b.inked ink := by
  obtain ⟨-, -, h⟩ := exists_of_bind h
  exact (Except.ok.inj h).symm

/-- Painting gives a paint to the cell under the head, and to no other. -/
lemma WellFormed.cell_inked (h : b.WellFormed) (ink : Cell) (p : Position) :
    (b.inked ink).cell p = if p = b.head then ink else b.cell p := by
  by_cases hp : b.inBounds p = true
  · have hwithin := (within_iff_inBounds _ _).mpr hp
    have hinked : (b.inked ink).inBounds p = true := hp
    rw [cell_of_inBounds hinked, cell_of_inBounds hp]
    exact h.grid.get_set h.head hwithin ink
  · have hne : p ≠ b.head := by
      rintro rfl
      exact hp h.inBounds_head
    have hinked : ¬ (b.inked ink).inBounds p = true := hp
    rw [cell, cell, if_neg hne, if_neg hp, if_neg hinked]

lemma WellFormed.inked (h : b.WellFormed) (ink : Cell) : (b.inked ink).WellFormed :=
  ⟨h.grid.set b.head ink, h.head, h.width, h.height⟩

lemma WellFormed.head_step (h : b.WellFormed) (hp : b.inBounds p = true) :
    { b with head := p }.WellFormed :=
  ⟨h.grid, (within_iff_inBounds _ _).mpr hp, h.width, h.height⟩

/-- What a command can do: move the head to another cell of the board, or paint the cell it is
on. -/
lemma perform_cases (h : b.perform c line = .ok after) :
    (∃ d, c = .move d ∧ b.inBounds (b.head.step d) = true ∧
        after = { b with head := b.head.step d }) ∨
      ∃ ink, (∀ b' line', Board.perform b' c line' = (b'.paint ink).mapError .grid) ∧
        after = b.inked ink := by
  cases c with
  | move d =>
    have hmove := of_mapError h
    simp only [move] at hmove
    split at hmove
    · exact .inl ⟨d, rfl, ‹_›, (Except.ok.inj hmove).symm⟩
    · cases hmove
  | paint color =>
    exact .inr ⟨some color, fun _ _ => rfl, inked_of_paint (of_mapError h)⟩
  | clear => exact .inr ⟨none, fun _ _ => rfl, inked_of_paint (of_mapError h)⟩

/-- A command is refused at the edge of the board, and has no other failure but that of the grid. -/
lemma edge_or_grid_of_perform_error {x : BoardFailure} (h : b.perform c line = .error x) :
    (∃ d, c = .move d ∧ b.inBounds (b.head.step d) = false ∧ x = .refused (.edge b.head d line)) ∨
      ∃ ink f, b.paint ink = .error f ∧ x = .grid f := by
  have hpaint : ∀ {ink : Cell}, (b.paint ink).mapError BoardFailure.grid = .error x →
      ∃ ink f, b.paint ink = .error f ∧ x = .grid f := by
    intro ink h
    cases hp : b.paint ink with
    | ok after =>
      rw [hp] at h
      cases h
    | error f =>
      rw [hp] at h
      exact ⟨ink, f, hp, (Except.error.inj h).symm⟩
  cases c with
  | move d =>
    simp only [perform, move] at h
    split at h
    · cases h
    · rename_i hout
      exact .inl ⟨d, rfl, by simpa using hout, (Except.error.inj h).symm⟩
  | paint | clear => exact .inr (hpaint h)

/-- On a well-formed board a command is refused at the edge, and nowhere else. -/
lemma WellFormed.edge_of_perform_error (hb : b.WellFormed) {x : BoardFailure}
    (h : b.perform c line = .error x) :
    ∃ d, c = .move d ∧ b.inBounds (b.head.step d) = false ∧ x = .refused (.edge b.head d line) := by
  rcases edge_or_grid_of_perform_error h with hedge | ⟨ink, f, hp, -⟩
  · exact hedge
  · rw [hb.paint_eq ink] at hp
    cases hp

lemma WellFormed.perform (h : b.WellFormed) (hp : b.perform c line = .ok after) :
    after.WellFormed := by
  obtain ⟨d, -, hin, rfl⟩ | ⟨ink, -, rfl⟩ := perform_cases hp
  · exact h.head_step hin
  · exact h.inked ink

end Board

end Trazo
