import Mathlib.Data.Multiset.UnionInter
import Mathlib.Tactic.Lemma
import Trazo.Similarity

/-!
What the search for matching blocks finds.

The search fills, character by character of the first word, a row of lengths of common runs. Its
result is the longest run, of those the first in the first word, and of those the first in the
second (`longestRun_first`): so a word is matched with itself from end to end (`matched_self`),
whichever of its characters are skipped. The blocks found in two words follow one another in both,
hence the words have a common subsequence of `matched` characters; it bounds their number by that
of the shared characters, and shows that only equal words match entirely.
-/

namespace Trazo.Similarity

variable {skipped a b : List Char}

/-! ### Runs -/

/-- Whether the words have the same character at these places, and it is not skipped. -/
def agree (skipped a b : List Char) (i j : Nat) : Bool :=
  match a[i]?, b[j]? with
  | some x, some y => x = y && !skipped.contains y
  | _, _ => false

lemma agree_iff {i j : Nat} :
    agree skipped a b i j ↔ ∃ c, c ∉ skipped ∧ a[i]? = some c ∧ b[j]? = some c := by
  unfold agree
  split
  next x y hx hy =>
    rw [hx, hy]
    constructor
    · intro h
      obtain ⟨rfl, hc⟩ : x = y ∧ y ∉ skipped := by simpa using h
      exact ⟨x, hc, rfl, rfl⟩
    · rintro ⟨c, hc, ⟨⟩, ⟨⟩⟩
      simpa using hc
  next h =>
    simp only [Bool.false_eq_true, false_iff]
    rintro ⟨c, -, hx, hy⟩
    exact h c c hx hy

namespace Block

/-- Both words have the block, and no character of it is skipped. -/
structure IsRun (skipped a b : List Char) (m : Block) : Prop where
  first : m.i + m.size ≤ a.length
  second : m.j + m.size ≤ b.length
  agree : ∀ t < m.size, agree skipped a b (m.i + t) (m.j + t)

/-- A block is preferred to another that is shorter; of two as long, the one that starts earlier in
the first word, and then the one that starts earlier in the second. -/
def Outranks (m n : Block) : Prop :=
  n.size < m.size ∨ n.size = m.size ∧ (m.i < n.i ∨ m.i = n.i ∧ m.j ≤ n.j)

lemma IsRun.take_drop_eq {m : Block} (h : m.IsRun skipped a b) :
    (a.drop m.i).take m.size = (b.drop m.j).take m.size := by
  apply List.ext_getElem?
  intro t
  by_cases ht : t < m.size
  · obtain ⟨c, -, ha, hb⟩ := agree_iff.mp (h.agree t ht)
    simp [List.getElem?_drop, ht, ha, hb]
  · simp [ht]

lemma isRun_empty {i j : Nat} (hi : i ≤ a.length) (hj : j ≤ b.length) :
    IsRun skipped a b ⟨i, j, 0⟩ :=
  ⟨hi, hj, by simp⟩

lemma isRun_succ_iff {i j k : Nat} :
    IsRun skipped a b ⟨i, j, k + 1⟩ ↔
      IsRun skipped a b ⟨i, j, k⟩ ∧ Similarity.agree skipped a b (i + k) (j + k) := by
  constructor
  · rintro ⟨first, second, h⟩
    exact ⟨⟨by grind, by grind, fun t ht => h t (by grind)⟩, h k (by grind)⟩
  · rintro ⟨⟨-, -, h⟩, hk⟩
    obtain ⟨c, -, ha, hb⟩ := agree_iff.mp hk
    have hi : i + k < a.length := (List.getElem?_eq_some_iff.mp ha).1
    have hj : j + k < b.length := (List.getElem?_eq_some_iff.mp hb).1
    refine ⟨hi, hj, fun t ht => ?_⟩
    rcases Nat.lt_succ_iff_lt_or_eq.mp ht with ht | rfl
    · exact h t ht
    · exact hk

lemma IsRun.append {i j k l : Nat} (h : IsRun skipped a b ⟨i, j, k⟩)
    (h' : IsRun skipped a b ⟨i + k, j + k, l⟩) : IsRun skipped a b ⟨i, j, k + l⟩ := by
  refine ⟨by have := h'.first; grind, by have := h'.second; grind, fun t ht => ?_⟩
  by_cases htk : t < k
  · exact h.agree t htk
  · have := h'.agree (t - k) (by grind)
    grind

lemma IsRun.of_skipped {m : Block} (h : m.IsRun skipped a b) : m.IsRun [] a b := by
  refine ⟨h.first, h.second, fun t ht => ?_⟩
  obtain ⟨c, -, ha, hb⟩ := agree_iff.mp (h.agree t ht)
  exact agree_iff.mpr ⟨c, by simp, ha, hb⟩

end Block

/-! ### The rows of the search -/

/-- The length of the longest run that ends before place `i` of the first word and place `j` of
the second. -/
def runEnd (skipped a b : List Char) : Nat → Nat → Nat
  | i + 1, j + 1 => if agree skipped a b i j then runEnd skipped a b i j + 1 else 0
  | _, _ => 0

lemma runEnd_zero_right (i : Nat) : runEnd skipped a b i 0 = 0 := by
  cases i <;> rfl

lemma le_runEnd_iff (skipped : List Char) {i j : Nat} (hi : i ≤ a.length) (hj : j ≤ b.length)
    (k : Nat) :
    k ≤ runEnd skipped a b i j ↔
      k ≤ i ∧ k ≤ j ∧ Block.IsRun skipped a b ⟨i - k, j - k, k⟩ := by
  induction i generalizing j k with
  | zero =>
    cases k with
    | zero => simpa using Block.isRun_empty hi hj
    | succ k => simp [runEnd]
  | succ i ih =>
    cases k with
    | zero => simpa using Block.isRun_empty hi hj
    | succ k =>
      cases j with
      | zero => simp [runEnd]
      | succ j =>
        rw [Nat.add_sub_add_right, Nat.add_sub_add_right, Block.isRun_succ_iff]
        by_cases h : agree skipped a b i j
        · have := ih (by omega) (by omega : j ≤ b.length) k
          simp only [runEnd, h, if_true, Nat.add_le_add_iff_right, this]
          constructor
          · rintro ⟨hki, hkj, hrun⟩
            refine ⟨hki, hkj, hrun, ?_⟩
            rwa [Nat.sub_add_cancel hki, Nat.sub_add_cancel hkj]
          · rintro ⟨hki, hkj, hrun, -⟩
            exact ⟨hki, hkj, hrun⟩
        · simp only [runEnd, h, if_false, Bool.false_eq_true, Nat.le_zero_eq, Nat.add_one_ne_zero,
            false_iff]
          rintro ⟨hki, hkj, -, h'⟩
          rw [Nat.sub_add_cancel (by omega), Nat.sub_add_cancel (by omega)] at h'
          exact h h'

/-- The lengths of the runs that end before place `i` of the first word, from place `j` of the
second on. -/
def rowAt (skipped a b : List Char) (i j n : Nat) : List Nat :=
  (List.range' j n).map fun t => runEnd skipped a b i (t + 1)

lemma rowAt_succ (i j n : Nat) :
    rowAt skipped a b i j (n + 1) =
      runEnd skipped a b i (j + 1) :: rowAt skipped a b i (j + 1) n := by
  simp [rowAt, List.range'_succ]

lemma rowAt_zero : rowAt skipped a b 0 0 b.length = List.replicate b.length 0 := by
  simp [rowAt, runEnd, List.map_const']

lemma getElem?_of_drop_eq_cons {w ys : List Char} {j : Nat} {y : Char} (h : w.drop j = y :: ys) :
    w[j]? = some y := by
  rw [← List.head?_drop, h, List.head?_cons]

lemma drop_succ_of_drop_eq_cons {w ys : List Char} {j : Nat} {y : Char} (h : w.drop j = y :: ys) :
    w.drop (j + 1) = ys := by
  rw [← List.tail_drop, h, List.tail_cons]

lemma runLengths_rowAt (skipped b : List Char) {i : Nat} {x : Char} (hx : a[i]? = some x) :
    ∀ {j : Nat} {ys : List Char}, b.drop j = ys →
      runLengths skipped x (runEnd skipped a b i j) ys (rowAt skipped a b i j ys.length) =
        rowAt skipped a b (i + 1) j ys.length := by
  intro j ys hys
  induction ys generalizing j with
  | nil => simp [rowAt, runLengths]
  | cons y ys ih =>
    have hy : b[j]? = some y := getElem?_of_drop_eq_cons hys
    rw [List.length_cons, rowAt_succ, rowAt_succ, runLengths, ih (drop_succ_of_drop_eq_cons hys)]
    simp only [runEnd, agree, hx, hy]

namespace Block

/-- The block is a run and is preferred to every run that ends before place `i` of the first word,
or right after that place and before place `j` of the second. -/
structure Best (skipped a b : List Char) (i j : Nat) (m : Block) : Prop where
  isRun : m.IsRun skipped a b
  seen : m.i + m.size ≤ i ∨ m.i + m.size = i + 1 ∧ m.j + m.size ≤ j
  outranks : ∀ n : Block, n.IsRun skipped a b →
    (n.i + n.size ≤ i ∨ n.i + n.size = i + 1 ∧ n.j + n.size ≤ j) → m.Outranks n

lemma best_zero (skipped a b : List Char) : Best skipped a b 0 0 ⟨0, 0, 0⟩ := by
  refine ⟨⟨by simp, by simp, by simp⟩, by simp, fun n _ h => ?_⟩
  simp only [Outranks]
  omega

/-- One place of a row: the longest run that ends there is taken if it is longer. -/
lemma Best.place {i j : Nat} {m : Block} (h : m.Best skipped a b i j) (hi : i < a.length)
    (hj : j < b.length) :
    Best skipped a b i (j + 1)
      (if runEnd skipped a b (i + 1) (j + 1) > m.size then
        ⟨i + 1 - runEnd skipped a b (i + 1) (j + 1), j + 1 - runEnd skipped a b (i + 1) (j + 1),
          runEnd skipped a b (i + 1) (j + 1)⟩
      else m) := by
  have hseen := h.seen
  have longest := le_runEnd_iff skipped (show i + 1 ≤ a.length from hi)
    (show j + 1 ≤ b.length from hj)
  generalize runEnd skipped a b (i + 1) (j + 1) = r at *
  obtain ⟨hri, hrj, hrun⟩ := (longest r).mp le_rfl
  -- A run that ends at this place is no longer than the one found there.
  have ends (n : Block) (hn : n.IsRun skipped a b) (hi : n.i + n.size = i + 1)
      (hj : n.j + n.size = j + 1) : n.size ≤ r := by
    refine (longest n.size).mpr ⟨by omega, by omega, ?_⟩
    rwa [← hi, ← hj, Nat.add_sub_cancel, Nat.add_sub_cancel]
  split_ifs with longer
  · refine ⟨hrun, by simp only; omega, fun n hn hn' => ?_⟩
    by_cases new : n.i + n.size = i + 1 ∧ n.j + n.size = j + 1
    · have := ends n hn new.1 new.2
      simp only [Outranks]
      omega
    · have := h.outranks n hn (by omega)
      simp only [Outranks] at this ⊢
      omega
  · refine ⟨h.isRun, by omega, fun n hn hn' => ?_⟩
    by_cases new : n.i + n.size = i + 1 ∧ n.j + n.size = j + 1
    · have := ends n hn new.1 new.2
      simp only [Outranks]
      omega
    · exact h.outranks n hn (by omega)

/-- A whole row, place by place. -/
lemma Best.row {i : Nat} (hi : i < a.length) (n : Nat) : ∀ {j : Nat} {m : Block},
    m.Best skipped a b i j → j + n ≤ b.length →
      (bestInRow i j m (rowAt skipped a b (i + 1) j n)).Best skipped a b i (j + n) := by
  intro j m h hj
  induction n generalizing j m with
  | zero => simpa [rowAt, bestInRow] using h
  | succ n ih =>
    rw [rowAt_succ, bestInRow, ← Nat.add_assoc, Nat.add_right_comm]
    exact ih (h.place hi (by omega)) (by omega)

/-- A row that is done leaves nothing out: every run ends inside the second word. -/
lemma Best.nextRow {i : Nat} {m : Block} (h : m.Best skipped a b i b.length) :
    m.Best skipped a b (i + 1) 0 := by
  have hseen := h.seen
  refine ⟨h.isRun, by omega, fun n hn hseen' => ?_⟩
  have hsecond := hn.second
  by_cases hlast : n.i + n.size ≤ i + 1
  · exact h.outranks n hn (by omega)
  · simp only [Outranks]
    omega

end Block

lemma best_longestFrom (xs : List Char) : ∀ {i : Nat} {m : Block},
    m.Best skipped a b i 0 → a.drop i = xs →
      (longestFrom skipped b i (rowAt skipped a b i 0 b.length) m xs).Best skipped a b
        (i + xs.length) 0 := by
  induction xs with
  | nil =>
    intro i m h _
    exact h
  | cons x xs ih =>
    intro i m h hxs
    have hx : a[i]? = some x := getElem?_of_drop_eq_cons hxs
    have hi : i < a.length := (List.getElem?_eq_some_iff.mp hx).1
    have hrow := runLengths_rowAt skipped b hx List.drop_zero
    rw [runEnd_zero_right] at hrow
    simp only [longestFrom, hrow]
    have hbest := h.row hi b.length (by omega)
    rw [Nat.zero_add] at hbest
    have := ih hbest.nextRow (drop_succ_of_drop_eq_cons hxs)
    rwa [Nat.add_right_comm] at this

/-- **The search finds the first longest run**: what it returns is one, and preferred to all. -/
theorem longestRun_first (skipped a b : List Char) :
    (longestRun skipped a b).IsRun skipped a b ∧
      ∀ n : Block, n.IsRun skipped a b → (longestRun skipped a b).Outranks n := by
  have h : (longestRun skipped a b).Best skipped a b a.length 0 := by
    rw [longestRun, ← rowAt_zero]
    have := best_longestFrom a (Block.best_zero skipped a b) rfl
    rwa [Nat.zero_add] at this
  exact ⟨h.isRun, fun n hn => h.outranks n hn (.inl hn.first)⟩

/-! ### Blocks that grow -/

lemma isRun_commonLength (a b : List Char) : Block.IsRun [] a b ⟨0, 0, commonLength a b⟩ := by
  fun_induction commonLength a b with
  | case1 x xs ys ih =>
    refine ⟨by simpa using ih.first, by simpa using ih.second, fun t ht => ?_⟩
    cases t with
    | zero => simp [agree]
    | succ t => simpa [agree] using ih.agree t (Nat.lt_of_succ_lt_succ ht)
  | case2 => exact Block.isRun_empty (Nat.zero_le _) (Nat.zero_le _)
  | case3 => exact Block.isRun_empty (Nat.zero_le _) (Nat.zero_le _)

@[simp] lemma commonLength_self (w : List Char) : commonLength w w = w.length := by
  induction w with
  | nil => rfl
  | cons x xs ih => simp [commonLength, ih]

namespace Block

lemma IsRun.of_drop {p q k : Nat} (h : IsRun [] (a.drop p) (b.drop q) ⟨0, 0, k⟩)
    (hp : p ≤ a.length) (hq : q ≤ b.length) : IsRun [] a b ⟨p, q, k⟩ := by
  obtain ⟨first, second, agree⟩ := h
  simp only [Nat.zero_add, List.length_drop] at first second agree
  refine ⟨by simp only; omega, by simp only; omega, fun t ht => ?_⟩
  have := agree t ht
  rw [agree_iff] at this ⊢
  simpa using this

/-- A run at the start of the reversed words is one that ends where they end. -/
lemma IsRun.of_take_reverse {p q k : Nat}
    (h : IsRun [] (a.take p).reverse (b.take q).reverse ⟨0, 0, k⟩)
    (hp : p ≤ a.length) (hq : q ≤ b.length) :
    k ≤ p ∧ k ≤ q ∧ IsRun [] a b ⟨p - k, q - k, k⟩ := by
  obtain ⟨first, second, agree⟩ := h
  simp only [Nat.zero_add, List.length_reverse, List.length_take_of_le hp,
    List.length_take_of_le hq] at first second agree
  refine ⟨first, second, by simp only; omega, by simp only; omega, fun t ht => ?_⟩
  simp only at ht
  have := agree (k - 1 - t) (by omega)
  rw [agree_iff, List.getElem?_reverse (by simp; omega), List.getElem?_reverse (by simp; omega),
    List.length_take_of_le hp, List.length_take_of_le hq,
    show p - 1 - (k - 1 - t) = p - k + t by omega, show q - 1 - (k - 1 - t) = q - k + t by omega,
    List.getElem?_take_of_lt (by omega), List.getElem?_take_of_lt (by omega)] at this
  exact agree_iff.mpr this

/-- Growing keeps a block a run, now over characters of any kind. -/
lemma IsRun.grow {m : Block} (h : m.IsRun skipped a b) : (m.grow a b).IsRun [] a b := by
  obtain ⟨i, j, k⟩ := m
  have first : i + k ≤ a.length := h.first
  have second : j + k ≤ b.length := h.second
  obtain ⟨hi, hj, left⟩ :=
    (isRun_commonLength (a.take i).reverse (b.take j).reverse).of_take_reverse
      (by omega) (by omega)
  have right := (isRun_commonLength (a.drop (i + k)) (b.drop (j + k))).of_drop first second
  simp only [Block.grow]
  generalize commonLength (a.take i).reverse (b.take j).reverse = l at *
  have middle : IsRun [] a b ⟨i - l + l, j - l + l, k⟩ := by
    rw [Nat.sub_add_cancel hi, Nat.sub_add_cancel hj]
    exact h.of_skipped
  rw [Nat.add_comm k l]
  refine (left.append middle).append ?_
  rwa [← Nat.add_assoc, ← Nat.add_assoc, Nat.sub_add_cancel hi, Nat.sub_add_cancel hj]

end Block

lemma isRun_longestBlock (skipped a b : List Char) : (longestBlock skipped a b).IsRun [] a b :=
  (longestRun_first skipped a b).1.grow

/-- The first longest run of a word with itself starts at the same place in both, and grows to the
whole word. -/
lemma longestBlock_self (skipped w : List Char) : longestBlock skipped w w = ⟨0, 0, w.length⟩ := by
  obtain ⟨run, first⟩ := longestRun_first skipped w w
  rw [longestBlock]
  generalize longestRun skipped w w = m at *
  have diagonal : m.i = m.j := by
    have atFirst := first ⟨m.i, m.i, m.size⟩ ⟨run.first, run.first, fun t ht => by
      obtain ⟨c, hc, ha, -⟩ := agree_iff.mp (run.agree t ht)
      exact agree_iff.mpr ⟨c, hc, ha, ha⟩⟩
    have atSecond := first ⟨m.j, m.j, m.size⟩ ⟨run.second, run.second, fun t ht => by
      obtain ⟨c, hc, -, hb⟩ := agree_iff.mp (run.agree t ht)
      exact agree_iff.mpr ⟨c, hc, hb, hb⟩⟩
    simp only [Block.Outranks] at atFirst atSecond
    omega
  have := run.first
  simp only [Block.grow, ← diagonal, commonLength_self, List.length_reverse, List.length_take,
    List.length_drop, Block.mk.injEq]
  omega

/-! ### Matched characters -/

/-- **The matched characters are a common subsequence** of the two words. -/
theorem exists_common_sublist (skipped a b : List Char) :
    ∃ l : List Char, l.Sublist a ∧ l.Sublist b ∧ l.length = matched skipped a b := by
  fun_induction matched skipped a b with
  | case1 a b m h left right =>
    have run := (isRun_longestBlock skipped a b).take_drop_eq
    have bound := (isRun_longestBlock skipped a b).first
    change (a.drop m.i).take m.size = (b.drop m.j).take m.size at run
    change m.i + m.size ≤ a.length at bound
    obtain ⟨l, la, lb, hl⟩ := left
    obtain ⟨r, ra, rb, hr⟩ := right
    have parts (w : List Char) (p : Nat) :
        w.take p ++ (w.drop p).take m.size ++ w.drop (p + m.size) = w := by
      rw [List.append_assoc, ← List.drop_drop, List.take_append_drop, List.take_append_drop]
    refine ⟨l ++ (a.drop m.i).take m.size ++ r, ?_, ?_, ?_⟩
    · have := (la.append_right ((a.drop m.i).take m.size)).append ra
      rwa [parts] at this
    · have := (lb.append_right ((b.drop m.j).take m.size)).append rb
      rwa [parts, ← run] at this
    · simp only [List.length_append, List.length_take, List.length_drop, hl, hr]
      omega
  | case2 a b m h => exact ⟨[], List.nil_sublist _, List.nil_sublist _, rfl⟩

lemma matched_le_first (skipped a b : List Char) : matched skipped a b ≤ a.length := by
  obtain ⟨l, ha, -, hl⟩ := exists_common_sublist skipped a b
  exact hl ▸ ha.length_le

lemma matched_le_second (skipped a b : List Char) : matched skipped a b ≤ b.length := by
  obtain ⟨l, -, hb, hl⟩ := exists_common_sublist skipped a b
  exact hl ▸ hb.length_le

lemma two_mul_matched_le (skipped a b : List Char) :
    2 * matched skipped a b ≤ a.length + b.length := by
  have := matched_le_first skipped a b
  have := matched_le_second skipped a b
  omega

/-- **A word matches itself from end to end**, whichever characters are skipped. -/
theorem matched_self (skipped w : List Char) : matched skipped w w = w.length := by
  have none_left (b : List Char) : matched skipped [] b = 0 :=
    Nat.le_zero.mp (matched_le_first skipped [] b)
  rw [matched, longestBlock_self]
  split
  · simp [none_left]
  · simp only at *
    omega

/-- Only equal words match entirely. -/
lemma two_mul_matched_lt (skipped : List Char) (h : a ≠ b) :
    2 * matched skipped a b < a.length + b.length := by
  obtain ⟨l, ha, hb, hl⟩ := exists_common_sublist skipped a b
  have := ha.length_le
  have := hb.length_le
  by_contra hle
  exact h ((ha.eq_of_length (by omega)).symm.trans (hb.eq_of_length (by omega)))

lemma shared_eq_card (a b : List Char) :
    shared a b = Multiset.card ((a : Multiset Char) ∩ (b : Multiset Char)) := by
  fun_induction shared a b with
  | case1 b => simp
  | case2 c cs word h ih =>
    have hmem : c ∈ (word : Multiset Char) := by simpa using h
    rw [ih, ← Multiset.cons_coe, Multiset.cons_inter_of_pos _ hmem, Multiset.card_cons,
      Multiset.coe_erase]
  | case3 c cs word h ih =>
    have hmem : c ∉ (word : Multiset Char) := by simpa using h
    rw [ih, ← Multiset.cons_coe, Multiset.cons_inter_of_neg _ hmem]

lemma two_mul_shared_le (a b : List Char) : 2 * shared a b ≤ a.length + b.length := by
  have ha := Multiset.card_le_card (Multiset.inter_le_left (s := (a : Multiset Char)) (t := b))
  have hb := Multiset.card_le_card (Multiset.inter_le_right (s := (a : Multiset Char)) (t := b))
  rw [← shared_eq_card, Multiset.coe_card] at ha hb
  omega

lemma matched_le_shared (skipped a b : List Char) : matched skipped a b ≤ shared a b := by
  obtain ⟨l, ha, hb, hl⟩ := exists_common_sublist skipped a b
  rw [← hl, shared_eq_card, ← Multiset.coe_card]
  exact Multiset.card_le_card (Multiset.le_inter (Multiset.coe_le.mpr ha.subperm)
    (Multiset.coe_le.mpr hb.subperm))

end Trazo.Similarity
