import Trazo.Board
import Trazo.Proofs.Outcome

/-!
What can be done to a board, and what is true of every board whatever has been done to it.

The operations check different things and work on the same few fields, but all that one of them can
do is one of five changes. The shape of the board and the course of its phases are read off these
changes, and what one operation keeps is kept by any number of them.

One operation can break off half-way: a board that is given more columns than a row can have takes
the new size on and keeps its old cells. Only its limits and the course of its phases survive that.
-/

namespace Trazo

/-- The grid has `height` rows of `width` cells. -/
def Grid.Measures (g : Grid) (width height : Nat) : Prop :=
  g.size = height ∧ ∀ row ∈ g, row.size = width

/-- The rows of an empty grid of this size can be made. -/
def Grid.Makeable (width height : Nat) : Prop := 0 < height → width ≤ maxIndex

instance (width height : Nat) : Decidable (Grid.Makeable width height) :=
  inferInstanceAs (Decidable (_ → _))

/-- The position is on a board of this size. -/
def Position.Within (p : Position) (width height : Nat) : Prop :=
  0 ≤ p.x ∧ p.x < width ∧ 0 ≤ p.y ∧ p.y < height

instance (p : Position) (width height : Nat) : Decidable (p.Within width height) :=
  inferInstanceAs (Decidable (_ ∧ _))

/-- The phase `p` may be followed by `q`. -/
inductive Phase.Precedes : Phase → Phase → Prop
  | start : Precedes .editing .running
  | finish : Precedes .running .finished
  | fail : Precedes .running .failed
  | edit (p : Phase) : Precedes p .editing

lemma Grid.measures_empty (width height : Nat) :
    (Grid.empty width height).Measures width height := by
  refine ⟨by simp [Grid.empty], ?_⟩
  intro row hrow
  obtain ⟨-, rfl⟩ := Array.mem_replicate.mp hrow
  simp

lemma Grid.blank_of_makeable {width height : Nat} (h : Grid.Makeable width height) :
    Grid.blank width height = .ok (.empty width height) :=
  if_neg fun hn => absurd (h hn.1) (Nat.not_le.mpr hn.2)

lemma Grid.blank_of_not_makeable {width height : Nat} (h : ¬ Grid.Makeable width height) :
    Grid.blank width height = .error .tooWide := by
  refine if_pos ?_
  simpa [Grid.Makeable] using h

lemma Grid.of_blank {width height : Nat} {g : Grid} (h : Grid.blank width height = .ok g) :
    Grid.Makeable width height ∧ g = .empty width height := by
  by_cases hm : Grid.Makeable width height
  · rw [blank_of_makeable hm] at h
    exact ⟨hm, (Except.ok.inj h).symm⟩
  · rw [blank_of_not_makeable hm] at h
    cases h

lemma Grid.Measures.set {g : Grid} {width height : Nat} (h : g.Measures width height)
    (p : Position) (c : Cell) : (g.set p c).Measures width height := by
  refine ⟨by simpa [Grid.set] using h.1, ?_⟩
  intro row hrow
  obtain ⟨i, hi, rfl⟩ := Array.mem_iff_getElem.mp hrow
  have hsize : i < g.size := by simpa [Grid.set] using hi
  have hold := h.2 g[i] (Array.getElem_mem hsize)
  simp only [Grid.set, Array.getElem_modify]
  split
  · rw [Array.size_modify]
    exact hold
  · exact hold

lemma Phase.precedes_of_allows {p q : Phase} : p.allows q = true → p.Precedes q := by
  fun_cases Phase.allows p q with
  | case1 => exact fun _ => .edit p
  | case2 => exact fun _ => .start
  | case3 => exact fun _ => .finish
  | case4 => exact fun _ => .fail
  | case5 => simp

namespace Board

/-- The cells fill the size of the board, the head is on one of them, and the sides are within the
limits of the board. -/
structure WellFormed (b : Board) : Prop where
  grid : b.grid.Measures b.width b.height
  head : b.head.Within b.width b.height
  width : b.minSide ≤ b.width ∧ b.width ≤ b.maxSide
  height : b.minSide ≤ b.height ∧ b.height ≤ b.maxSide

/-! ### Operations -/

inductive Operation
  | resize (width height : Int)
  | setColor (p : Position) (c : Cell)
  | cycleColor (p : Position)
  | teleport (p : Position)
  | move (d : Direction) (line : Option Int)
  | paint (c : Cell)
  | restore (s : Snapshot)
  | reset
  | transition (target : Phase)
  | startRun
  | finish
  | fail

/-- The snapshots that are put back were taken of well-formed boards, of any size and limits. -/
def Operation.Sound : Operation → Prop
  | .restore s => ∃ b : Board, b.WellFormed ∧ b.snapshot = s
  | _ => True

/-- The operation asks for a size that the limits allow and whose rows cannot be made. -/
def Operation.Overflows (low high : Nat) : Operation → Prop
  | .resize width height => checkSize low high width height = .ok () ∧
      ¬ Grid.Makeable width.toNat height.toNat
  | _ => False

/-- What comes of an operation that changes the board all at once, or not at all. -/
def settle (b : Board) : Except BoardFailure Board → Except BoardFailure Unit × Board
  | .error f => (.error f, b)
  | .ok after => (.ok (), after)

/-- What comes of an operation, and the board it leaves. -/
def attempt (b : Board) : Operation → Except BoardFailure Unit × Board
  | .resize width height => b.resize width height
  | .setColor p c => b.settle (b.setColor p c)
  | .cycleColor p => b.settle ((b.cycleColor p).map (·.2))
  | .teleport p => b.settle ((b.teleport p).mapError .refused)
  | .move d line => b.settle ((b.move d line).mapError .refused)
  | .paint c => b.settle ((b.paint c).mapError .grid)
  | .restore s => b.settle ((b.restore s).mapError .refused)
  | .reset => b.settle (b.reset.mapError .grid)
  | .transition target => b.settle ((b.transition target).mapError .refused)
  | .startRun => b.settle (b.startRun.mapError .refused)
  | .finish => b.settle (b.finish.mapError .refused)
  | .fail => b.settle (b.fail.mapError .refused)

/-- The board after operations, some of which may have failed. -/
def after (b : Board) (ops : List Operation) : Board := ops.foldl (fun b op => (b.attempt op).2) b

/-! ### Changes -/

/-- The board may take this size: it has it already, or its limits allow it. -/
def Admits (b : Board) (width height : Nat) : Prop :=
  width = b.width ∧ height = b.height ∨
    (b.minSide ≤ width ∧ width ≤ b.maxSide) ∧ b.minSide ≤ height ∧ height ≤ b.maxSide

/-- All that an operation can do to a board. -/
inductive Changes (b : Board) : Operation → Board → Prop
  | empty {op : Operation} {width height : Nat} {p : Position} (hsize : b.Admits width height)
      (hm : Grid.Makeable width height) (hp : p = .origin ∨ p.Within width height) :
      Changes b op { b with
        width := width, height := height, grid := .empty width height, head := p
        phase := .editing }
  | paint {op : Operation} (p : Position) (c : Cell) :
      Changes b op { b with grid := b.grid.set p c }
  | head {op : Operation} {p : Position} (hp : p.Within b.width b.height) :
      Changes b op { b with head := p }
  | restore {s : Snapshot} (hsize : b.Admits s.width s.height) :
      Changes b (.restore s)
        { b with width := s.width, height := s.height, grid := s.grid, head := s.head }
  | phase {op : Operation} {p : Phase} (hp : b.phase.Precedes p) :
      Changes b op { b with phase := p }

variable {b b' : Board} {op : Operation}

lemma within_iff_inBounds (b : Board) (p : Position) :
    p.Within b.width b.height ↔ b.inBounds p = true := by
  simp [Position.Within, inBounds, and_assoc]

lemma of_checkSize {low high : Nat} {width height : Int} {u : Unit}
    (h : checkSize low high width height = .ok u) :
    (low ≤ width ∧ width ≤ high) ∧ low ≤ height ∧ height ≤ high := by
  unfold checkSize at h
  split at h
  · cases h
  · split at h
    · cases h
    · simp_all

/-- A resize is refused, or breaks off with the new size taken on, or empties the board. -/
lemma resize_cases (b : Board) (width height : Int) :
    (∃ f, b.resize width height = (.error (.refused f), b)) ∨
      (Operation.resize width height).Overflows b.minSide b.maxSide ∧
        b.resize width height = (.error (.grid .tooWide),
          { b with width := width.toNat, height := height.toNat }) ∨
      (b.resize width height).1 = .ok () ∧ Changes b op (b.resize width height).2 := by
  unfold resize
  cases hc : checkSize b.minSide b.maxSide width height with
  | error f => exact .inl ⟨f, rfl⟩
  | ok u =>
    refine .inr ?_
    by_cases hm : Grid.Makeable width.toNat height.toNat
    · right
      simp only [Grid.blank_of_makeable hm, true_and]
      have hsize := of_checkSize hc
      have hadmits : b.Admits width.toNat height.toNat := .inr (by omega)
      split
      · rename_i hin
        exact .empty hadmits hm (.inr ((within_iff_inBounds _ _).mpr hin))
      · exact .empty hadmits hm (.inl rfl)
    · left
      simp only [Grid.blank_of_not_makeable hm, and_true]
      exact ⟨hc, hm⟩

lemma changes_of_move {d : Direction} {line : Option Int} (h : b.move d line = .ok b') :
    Changes b op b' := by
  unfold move at h
  dsimp only at h
  split at h
  · rename_i hin
    obtain rfl := Except.ok.inj h
    exact .head ((within_iff_inBounds _ _).mpr hin)
  · cases h

lemma changes_of_write {p : Position} {c : Cell} (h : b.write p c = .ok b') : Changes b op b' := by
  obtain ⟨-, -, h⟩ := exists_of_bind h
  obtain rfl := Except.ok.inj h
  exact .paint p c

lemma within_of_requireInside {p : Position} {u : Unit} (h : b.requireInside p = .ok u) :
    p.Within b.width b.height := by
  unfold requireInside at h
  split at h
  · exact (within_iff_inBounds _ _).mpr ‹_›
  · cases h

lemma changes_of_setColor {p : Position} {c : Cell} (h : b.setColor p c = .ok b') :
    Changes b op b' := by
  obtain ⟨-, -, h⟩ := exists_of_bind h
  obtain ⟨-, -, h⟩ := exists_of_bind h
  exact changes_of_write (of_mapError h)

lemma changes_of_teleport {p : Position} (h : b.teleport p = .ok b') : Changes b op b' := by
  obtain ⟨-, -, h⟩ := exists_of_bind h
  obtain ⟨u, hin, h⟩ := exists_of_bind h
  obtain rfl := Except.ok.inj h
  exact .head (within_of_requireInside hin)

lemma changes_of_cycleColor {p : Position} {r : Cell × Board} (h : b.cycleColor p = .ok r) :
    Changes b op r.2 := by
  obtain ⟨-, -, h⟩ := exists_of_bind h
  obtain ⟨ink, -, h⟩ := exists_of_bind h
  dsimp only at h
  obtain ⟨after, hset, h⟩ := exists_of_bind h
  obtain rfl := Except.ok.inj h
  exact changes_of_setColor hset

lemma changes_of_restore {s : Snapshot} (h : b.restore s = .ok b') :
    Changes b (.restore s) b' := by
  unfold restore at h
  split at h
  · obtain ⟨u, hc, h⟩ := exists_of_bind h
    have hsize := of_checkSize hc
    obtain rfl := Except.ok.inj h
    exact .restore (.inr (by omega))
  · rename_i hsame
    obtain rfl := Except.ok.inj h
    exact .restore (.inl (by simpa using hsame))

lemma changes_of_reset (h : b.reset = .ok b') : Changes b op b' := by
  obtain ⟨g, hg, h⟩ := exists_of_bind h
  obtain ⟨hm, rfl⟩ := Grid.of_blank hg
  obtain rfl := Except.ok.inj h
  exact .empty (.inl ⟨rfl, rfl⟩) hm (.inl rfl)

lemma changes_of_transition {p : Phase} (h : b.transition p = .ok b') : Changes b op b' := by
  unfold transition at h
  split at h
  · rename_i hp
    obtain rfl := Except.ok.inj h
    exact .phase (Phase.precedes_of_allows hp)
  · cases h

/-- The operation is done and makes a change, or fails and leaves the board alone. -/
def Settles (b : Board) (op : Operation) (r : Except BoardFailure Unit × Board) : Prop :=
  r.1 = .ok () ∧ Changes b op r.2 ∨ (∃ f, r.1 = .error f) ∧ r.2 = b

lemma settles {x : Except BoardFailure Board} (h : ∀ after, x = .ok after → Changes b op after) :
    b.Settles op (b.settle x) := by
  cases x with
  | error f => exact .inr ⟨⟨f, rfl⟩, rfl⟩
  | ok after => exact .inl ⟨rfl, h after rfl⟩

/-- **Every operation** makes one of the changes or none, unless it is a resize that breaks off with
the new size taken on. -/
theorem attempt_cases (b : Board) (op : Operation) :
    b.Settles op (b.attempt op) ∨
      ∃ width height, op = .resize width height ∧ op.Overflows b.minSide b.maxSide ∧
        b.attempt op = (.error (.grid .tooWide),
          { b with width := width.toNat, height := height.toNat }) := by
  cases op with
  | resize width height =>
    rcases b.resize_cases width height with ⟨f, h⟩ | ⟨ho, h⟩ | ⟨h, hc⟩
    · exact .inl (.inr ⟨⟨_, congrArg Prod.fst h⟩, congrArg Prod.snd h⟩)
    · exact .inr ⟨width, height, rfl, ho, h⟩
    · exact .inl (.inl ⟨h, hc⟩)
  | setColor p c => exact .inl (settles fun _ h => changes_of_setColor h)
  | cycleColor p =>
    refine .inl (settles fun after h => ?_)
    cases hc : b.cycleColor p with
    | error f =>
      rw [hc] at h
      cases h
    | ok r =>
      rw [hc] at h
      obtain rfl := Except.ok.inj h
      exact changes_of_cycleColor hc
  | teleport p => exact .inl (settles fun _ h => changes_of_teleport (of_mapError h))
  | move d line => exact .inl (settles fun _ h => changes_of_move (of_mapError h))
  | paint c => exact .inl (settles fun _ h => changes_of_write (of_mapError h))
  | restore s => exact .inl (settles fun _ h => changes_of_restore (of_mapError h))
  | reset => exact .inl (settles fun _ h => changes_of_reset (of_mapError h))
  | transition p => exact .inl (settles fun _ h => changes_of_transition (of_mapError h))
  | startRun | finish | fail =>
    exact .inl (settles fun _ h => changes_of_transition (of_mapError h))

/-- A resize whose rows cannot be made breaks off with the new size taken on. -/
lemma attempt_of_overflows {width height : Int}
    (h : (Operation.resize width height).Overflows b.minSide b.maxSide) :
    b.attempt (.resize width height) = (.error (.grid .tooWide),
      { b with width := width.toNat, height := height.toNat }) := by
  obtain ⟨hc, hm⟩ := h
  simp only [attempt, resize, hc, Grid.blank_of_not_makeable hm]

/-! ### What every board keeps -/

/-- The board has these limits, and its sides are within them. -/
structure Limited (low high : Nat) (b : Board) : Prop where
  minSide : b.minSide = low
  maxSide : b.maxSide = high
  width : low ≤ b.width ∧ b.width ≤ high
  height : low ≤ b.height ∧ b.height ≤ high

variable {low high : Nat}

lemma WellFormed.limited (h : b.WellFormed) : b.Limited b.minSide b.maxSide :=
  ⟨rfl, rfl, h.width, h.height⟩

lemma Limited.sides_of_admits {width height : Nat} (h : b.Limited low high)
    (hs : b.Admits width height) :
    (low ≤ width ∧ width ≤ high) ∧ low ≤ height ∧ height ≤ high := by
  rcases hs with ⟨rfl, rfl⟩ | hs
  · exact ⟨h.width, h.height⟩
  · rwa [h.minSide, h.maxSide] at hs

lemma Limited.changes (h : b.Limited low high) (hc : Changes b op b') : b'.Limited low high := by
  cases hc with
  | empty hsize | restore hsize =>
    obtain ⟨hwidth, hheight⟩ := h.sides_of_admits hsize
    exact ⟨h.minSide, h.maxSide, hwidth, hheight⟩
  | paint | head | phase => exact ⟨h.minSide, h.maxSide, h.width, h.height⟩

/-- **Each change** keeps a board well-formed, within limits that leave room for a cell. -/
theorem WellFormed.changes (h : b.WellFormed) (hmin : 1 ≤ b.minSide) (hop : op.Sound)
    (hc : Changes b op b') : b'.WellFormed := by
  cases hc with
  | @empty _ width height p hsize _ hp =>
    obtain ⟨hwidth, hheight⟩ := h.limited.sides_of_admits hsize
    refine ⟨Grid.measures_empty width height, ?_, hwidth, hheight⟩
    rcases hp with rfl | hp
    · simp only [Position.Within, Position.origin]
      omega
    · exact hp
  | paint p c => exact ⟨h.grid.set p c, h.head, h.width, h.height⟩
  | head hp => exact ⟨h.grid, hp, h.width, h.height⟩
  | restore hsize =>
    obtain ⟨hwidth, hheight⟩ := h.limited.sides_of_admits hsize
    obtain ⟨source, hsource, rfl⟩ := hop
    exact ⟨hsource.grid, hsource.head, hwidth, hheight⟩
  | phase => exact ⟨h.grid, h.head, h.width, h.height⟩

/-- A change leaves the phase or takes it on its course. -/
lemma Changes.phase_precedes (hc : Changes b op b') :
    b'.phase = b.phase ∨ b.phase.Precedes b'.phase := by
  cases hc with
  | empty => exact .inr (.edit b.phase)
  | paint | head | restore => exact .inl rfl
  | phase hp => exact .inr hp

lemma Limited.attempt (h : b.Limited low high) (op : Operation) :
    (b.attempt op).2.Limited low high := by
  rcases attempt_cases b op with (⟨-, hc⟩ | ⟨-, hb⟩) | ⟨width, height, rfl, ho, hr⟩
  · exact h.changes hc
  · rwa [hb]
  · -- the size is taken on only after it has been checked
    have hsize := of_checkSize ho.1
    rw [h.minSide, h.maxSide] at hsize
    rw [hr]
    refine ⟨h.minSide, h.maxSide, ?_, ?_⟩ <;> dsimp only <;> omega

lemma WellFormed.attempt (h : b.WellFormed) (hmin : 1 ≤ b.minSide) (hop : op.Sound)
    (ho : ¬ op.Overflows b.minSide b.maxSide) : (b.attempt op).2.WellFormed := by
  rcases attempt_cases b op with (⟨-, hc⟩ | ⟨-, hb⟩) | ⟨_, _, -, hover, -⟩
  · exact h.changes hmin hop hc
  · rwa [hb]
  · exact absurd hover ho

lemma Limited.after (h : b.Limited low high) (ops : List Operation) :
    (b.after ops).Limited low high := by
  induction ops generalizing b with
  | nil => exact h
  | cons op ops ih => exact ih (h.attempt op)

lemma WellFormed.after (h : b.WellFormed) (hl : b.Limited low high) (hlow : 1 ≤ low)
    {ops : List Operation} (hops : ∀ op ∈ ops, op.Sound)
    (ho : ∀ op ∈ ops, ¬ op.Overflows low high) : (b.after ops).WellFormed := by
  induction ops generalizing b with
  | nil => exact h
  | cons op ops ih =>
    have hop := hops op List.mem_cons_self
    have hfits := ho op List.mem_cons_self
    rw [← hl.minSide, ← hl.maxSide] at hfits
    have hnext := h.attempt (by rw [hl.minSide]; exact hlow) hop hfits
    exact ih hnext (hl.attempt op) (fun op' hop' => hops op' (List.mem_cons_of_mem op hop'))
      fun op' hop' => ho op' (List.mem_cons_of_mem op hop')

lemma wellFormed_create {s : Settings} {width height : Int} (hs : 1 ≤ s.minSide)
    (hb : create width height s = .ok b) :
    b.WellFormed ∧ b.minSide = s.minSide ∧ b.maxSide = s.maxSide := by
  obtain ⟨u, hc, hb⟩ := exists_of_bind hb
  have hsize := of_checkSize (of_mapError hc)
  obtain ⟨g, hg, hb⟩ := exists_of_bind hb
  obtain ⟨-, rfl⟩ := Grid.of_blank (of_mapError hg)
  obtain rfl := Except.ok.inj hb
  refine ⟨⟨Grid.measures_empty _ _, ?_, ?_, ?_⟩, rfl, rfl⟩
  all_goals
    simp only [Position.Within, Position.origin]
    omega

/-- **A board keeps its shape**: after any operations, failed ones among them, the sides of a board
are within the limits that it was made with. It has as many rows and cells as its size says, and the
head is on it, if no resize asked for rows that cannot be made. An operation that fails leaves the
board as it was, unless it is such a resize, which takes the new size on and changes nothing else;
and the phase changes on its course or not at all. -/
theorem create_after_wellFormed {s : Settings} (hs : 1 ≤ s.minSide) {width height : Int}
    (hb : create width height s = .ok b) {ops : List Operation} (hops : ∀ op ∈ ops, op.Sound) :
    let now := b.after ops
    now.Limited s.minSide s.maxSide ∧
      ((∀ op ∈ ops, ¬ op.Overflows s.minSide s.maxSide) → now.WellFormed) ∧
      (∀ op, op.Sound →
        (¬ op.Overflows s.minSide s.maxSide → ∀ f, (now.attempt op).1 = .error f →
          (now.attempt op).2 = now) ∧
        ((now.attempt op).2.phase = now.phase ∨
          now.phase.Precedes (now.attempt op).2.phase)) ∧
      ∀ width height, (Operation.resize width height).Overflows s.minSide s.maxSide →
        now.attempt (.resize width height) = (.error (.grid .tooWide),
          { now with width := width.toNat, height := height.toNat }) := by
  intro now
  obtain ⟨hwell, hmin, hmax⟩ := wellFormed_create hs hb
  have hlimited : b.Limited s.minSide s.maxSide := by
    rw [← hmin, ← hmax]
    exact hwell.limited
  have hnow : now.Limited s.minSide s.maxSide := hlimited.after ops
  refine ⟨hnow, hwell.after hlimited hs hops, fun op hop => ?_, fun width height ho => ?_⟩
  · rcases attempt_cases now op with (⟨hdone, hc⟩ | ⟨-, hsame⟩) | ⟨_, _, -, hover, hr⟩
    · refine ⟨fun _ f hf => ?_, hc.phase_precedes⟩
      rw [hdone] at hf
      cases hf
    · exact ⟨fun _ _ _ => hsame, .inl (congrArg Board.phase hsame)⟩
    · rw [hnow.minSide, hnow.maxSide] at hover
      refine ⟨fun hno => absurd hover hno, .inl ?_⟩
      rw [hr]
  · rw [← hnow.minSide, ← hnow.maxSide] at ho
    exact attempt_of_overflows ho

/-- Snapshots of a wider board: one is refused, as it is beyond the limits, one is put back. -/
theorem create_after_wellFormed_restored :
    let s : Settings := { minSide := 2, maxSide := 4 }
    let wide : Board := ⟨1, 9, 6, 2, .empty 6 2, ⟨5, 1⟩, .failed⟩
    let small : Board := ⟨1, 9, 3, 2, .empty 3 2, ⟨2, 1⟩, .editing⟩
    let ops : List Operation := [.teleport ⟨3, 3⟩, .startRun, .setColor ⟨0, 0⟩ (some .red),
      .restore wide.snapshot, .restore small.snapshot, .paint (some .green), .finish]
    wide.WellFormed ∧ small.WellFormed ∧
      ∃ b, create 4 4 s = .ok b ∧
        (b.after ops).snapshot = ⟨3, 2, (Grid.empty 3 2).set ⟨2, 1⟩ (some .green), ⟨2, 1⟩⟩ ∧
        (b.after ops).WellFormed ∧ (b.after ops).phase = .finished := by
  intro s wide small ops
  have hwide : wide.WellFormed := ⟨Grid.measures_empty 6 2, by decide, by decide, by decide⟩
  have hsmall : small.WellFormed := ⟨Grid.measures_empty 3 2, by decide, by decide, by decide⟩
  have hops : ∀ op ∈ ops, op.Sound := by
    simp only [ops, List.forall_mem_cons, Operation.Sound, true_and]
    exact ⟨⟨wide, hwide, rfl⟩, ⟨small, hsmall, rfl⟩, by simp⟩
  have hb : create 4 4 s = .ok ⟨2, 4, 4, 4, .empty 4 4, .origin, .editing⟩ := rfl
  have hfits : ∀ op ∈ ops, ¬ op.Overflows 2 4 := by
    simp [ops, Operation.Overflows]
  exact ⟨hwide, hsmall, _, hb, rfl, (create_after_wellFormed (by decide) hb hops).2.1 hfits, rfl⟩

/-- A resize to one cell more than a row can have, within limits that allow it. -/
lemma overflows_beyond :
    (Operation.resize (maxIndex + 1) 1).Overflows 1 (maxIndex + 1) := by
  constructor
  · simp [checkSize, maxIndex]
  · simp [Grid.Makeable, maxIndex]

/-- **A board that is torn**: the limits allow a row of one cell more than a row can have. The board
keeps its one cell, and says that it has the others. -/
theorem create_resize_overflows :
    let s : Settings := { maxSide := maxIndex + 1 }
    let b : Board := ⟨1, maxIndex + 1, 1, 1, .empty 1 1, .origin, .editing⟩
    let torn : Board := { b with width := maxIndex + 1 }
    create 1 1 s = .ok b ∧
      b.attempt (.resize (maxIndex + 1) 1) = (.error (.grid .tooWide), torn) ∧ torn ≠ b ∧
      ¬ torn.WellFormed := by
  intro s b torn
  refine ⟨rfl, attempt_of_overflows overflows_beyond, ?_, fun h => ?_⟩
  · intro h
    have hwidth := congrArg Board.width h
    revert hwidth
    decide
  · have hrow := h.grid.2 (Array.replicate 1 none) (by simp [torn, b, Grid.empty])
    revert hrow
    decide

end Board

end Trazo
