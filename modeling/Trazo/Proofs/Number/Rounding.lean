import Mathlib.Algebra.Order.Field.Power
import Mathlib.Data.Int.Log
import Mathlib.Data.Rat.Floor
import Mathlib.Tactic.FieldSimp
import Mathlib.Tactic.Linarith
import Mathlib.Tactic.Positivity
import Trazo.Number

/-!
Binary numbers as fractions, and a quotient as the number nearest to it.

`nearest` rounds a fraction on the grid that the numbers form around it, and dividing two whole
numbers comes to that (`ofRatio_canonical_and_value`). What is then used of rounding rests on one
fact, that no number is nearer (`abs_nearest_sub_le`): rounding fixes the numbers themselves, keeps
the order, and moves a proportion by at most `2 ^ (-54)`.
-/

namespace Trazo.Binary64

/-! ### Values -/

/-- The fraction that a finite number stands for. -/
def value : Binary64 → ℚ
  | .finite negative m e => if negative then -(m * 2 ^ e) else m * 2 ^ e
  | _ => 0

def isFinite : Binary64 → Bool
  | .finite .. => true
  | _ => false

lemma pow2_cast (k : Nat) : (pow2 k : ℚ) = 2 ^ k := by
  rw [pow2, Nat.pow_eq, Nat.cast_pow, Nat.cast_ofNat]

lemma pow2_toNat_cast {k : Int} (hk : 0 ≤ k) : (pow2 k.toNat : ℚ) = 2 ^ k := by
  rw [pow2_cast, ← zpow_natCast, Int.toNat_of_nonneg hk]

lemma compareMagnitude_ne_gt_iff (m : Nat) (e : Int) (m' : Nat) (e' : Int) :
    (compareMagnitude m e m' e' != .gt) = true ↔ (m * 2 ^ e : ℚ) ≤ m' * 2 ^ e' := by
  have unit : (0 : ℚ) < 2 ^ min e e' := by positivity
  -- Both sides are counted in units of the smaller power.
  have counted (n : Nat) {f : Int} (hf : min e e' ≤ f) :
      (n * 2 ^ f : ℚ) = (n * pow2 (f - min e e').toNat : Nat) * 2 ^ min e e' := by
    rw [Nat.cast_mul, pow2_toNat_cast (by omega), mul_assoc, ← zpow_add₀ two_ne_zero,
      Int.sub_add_cancel]
  rw [counted m (min_le_left e e'), counted m' (min_le_right e e'), mul_le_mul_iff_left₀ unit,
    Nat.cast_le, bne_iff_ne, compareMagnitude, ne_eq, compare_gt_iff_gt, not_lt]

lemma le_iff_value_le {x y : Binary64} (hx : x.isFinite) (hy : y.isFinite) :
    x.le y ↔ x.value ≤ y.value := by
  cases x with
  | infinite n => cases hx
  | nan => cases hx
  | finite n m e =>
  cases y with
  | infinite n' => cases hy
  | nan => cases hy
  | finite n' m' e' =>
  have hpos : (0 : ℚ) ≤ m * 2 ^ e := by positivity
  have hpos' : (0 : ℚ) ≤ m' * 2 ^ e' := by positivity
  by_cases zero : m = 0 ∧ m' = 0
  · obtain ⟨rfl, rfl⟩ := zero
    simp [le, value]
  · have zero' : ¬(m = 0 && m' = 0) = true := by simpa using zero
    rw [le.eq_def]
    simp only [zero']
    cases n <;> cases n'
    · simpa [value] using compareMagnitude_ne_gt_iff m e m' e'
    · -- One of the two is not zero, so a number below zero is not reached.
      have : (0 : ℚ) < m * 2 ^ e + m' * 2 ^ e' := by
        rcases Nat.eq_zero_or_pos m with hm | hm
        · have : 0 < m' := by omega
          positivity
        · positivity
      simp only [value, Bool.false_eq_true, if_false, if_true, false_iff, not_le]
      linarith
    · simp only [value, if_true, Bool.false_eq_true, if_false, true_iff]
      linarith
    · simpa [value] using compareMagnitude_ne_gt_iff m' e' m e

/-- The one form in which a number that is not below zero is written. -/
inductive Canonical : Binary64 → Prop
  | mk {m : Nat} {e : Int} (least : minExponent ≤ e) (bits : m < 2 ^ 53)
      (leading : e = minExponent ∨ 2 ^ 52 ≤ m) : Canonical (.finite false m e)

lemma Canonical.isFinite {x : Binary64} (h : x.Canonical) : x.isFinite := by
  cases h
  rfl

/-- With a larger exponent the leading bit alone exceeds every number of the smaller one. -/
lemma Canonical.exponent_le {m m' : Nat} {e e' : Int} (h : Canonical (.finite false m e))
    (h' : Canonical (.finite false m' e')) (heq : (m * 2 ^ e : ℚ) = m' * 2 ^ e') : e' ≤ e := by
  obtain ⟨least, bits, -⟩ := h
  obtain ⟨-, -, leading⟩ := h'
  by_contra hlt
  have hm' : 2 ^ 52 ≤ m' := leading.resolve_left (by omega)
  have hpow : (2 : ℚ) ^ (e + 1) ≤ 2 ^ e' := zpow_le_zpow_right₀ one_le_two (by omega)
  have hbits : (m : ℚ) < 2 ^ 53 := by exact_mod_cast bits
  have hleading : (2 ^ 52 : ℚ) ≤ m' := by exact_mod_cast hm'
  have unit : (0 : ℚ) < 2 ^ e := by positivity
  have : (m * 2 ^ e : ℚ) < m' * 2 ^ e' := calc
    (m * 2 ^ e : ℚ) < 2 ^ 53 * 2 ^ e := mul_lt_mul_of_pos_right hbits unit
    _ = 2 ^ 52 * 2 ^ (e + 1) := by rw [zpow_add_one₀ two_ne_zero]; ring
    _ ≤ m' * 2 ^ e' := mul_le_mul hleading hpow (by positivity) (by positivity)
  exact this.ne heq

lemma Canonical.eq_of_value_eq {x y : Binary64} (hx : x.Canonical) (hy : y.Canonical)
    (h : x.value = y.value) : x = y := by
  obtain @⟨m, e, _, _, _⟩ := id hx
  obtain @⟨m', e', _, _, _⟩ := id hy
  simp only [value, Bool.false_eq_true, if_false] at h
  obtain rfl : e = e' := le_antisymm (hy.exponent_le hx h.symm) (hx.exponent_le hy h)
  have : (m : ℚ) = m' := mul_right_cancel₀ (by positivity) h
  rw [Nat.cast_inj.mp this]

/-! ### The nearest whole number -/

/-- The whole number nearest to `q`; half way, the even one. -/
def nearestInt (q : ℚ) : ℤ :=
  if 2 * Int.fract q < 1 then ⌊q⌋
  else if 1 < 2 * Int.fract q then ⌊q⌋ + 1
  else ⌊q⌋ + ⌊q⌋ % 2

@[simp] lemma nearestInt_zero : nearestInt 0 = 0 := by
  simp [nearestInt]

lemma nearestInt_cases (q : ℚ) :
    (nearestInt q = ⌊q⌋ ∧ 2 * Int.fract q ≤ 1) ∨
      (nearestInt q = ⌊q⌋ + 1 ∧ 1 ≤ 2 * Int.fract q) := by
  unfold nearestInt
  split_ifs with h h'
  · exact .inl ⟨rfl, h.le⟩
  · exact .inr ⟨rfl, h'.le⟩
  · rcases Int.emod_two_eq_zero_or_one ⌊q⌋ with even | odd
    · exact .inl ⟨by omega, by linarith⟩
    · exact .inr ⟨by omega, by linarith⟩

lemma abs_nearestInt_sub_le (q : ℚ) (z : ℤ) : |nearestInt q - q| ≤ |z - q| := by
  have hfloor : q = ⌊q⌋ + Int.fract q := (Int.floor_add_fract q).symm
  have hfract := Int.fract_nonneg q
  have hfract' := Int.fract_lt_one q
  have hz : (z : ℚ) ≤ ⌊q⌋ ∨ (⌊q⌋ + 1 : ℚ) ≤ z := by
    rcases le_or_gt z ⌊q⌋ with h | h
    · exact .inl (by exact_mod_cast h)
    · exact .inr (by exact_mod_cast h)
  obtain ⟨h, half⟩ | ⟨h, half⟩ := nearestInt_cases q
  · rw [h, abs_of_nonpos (by linarith)]
    rcases hz with hz | hz
    · exact le_trans (by linarith) (neg_le_abs _)
    · exact le_trans (by linarith) (le_abs_self _)
  · rw [h, Int.cast_add, Int.cast_one, abs_of_nonneg (by linarith)]
    rcases hz with hz | hz
    · exact le_trans (by linarith) (neg_le_abs _)
    · exact le_trans (by linarith) (le_abs_self _)

lemma le_nearestInt {q : ℚ} {z : ℤ} (h : z ≤ q) : z ≤ nearestInt q := by
  have hz : z ≤ ⌊q⌋ := Int.le_floor.mpr h
  obtain ⟨h, -⟩ | ⟨h, -⟩ := nearestInt_cases q <;> omega

lemma nearestInt_le {q : ℚ} {z : ℤ} (h : q ≤ z) : nearestInt q ≤ z := by
  have hfloor : q = ⌊q⌋ + Int.fract q := (Int.floor_add_fract q).symm
  obtain ⟨hq, -⟩ | ⟨hq, half⟩ := nearestInt_cases q
  · rw [hq]
    exact Int.floor_le_iff.mpr (by linarith)
  · have : (⌊q⌋ : ℚ) < z := by linarith
    rw [hq]
    exact_mod_cast this

lemma abs_nearestInt_sub_le_half (q : ℚ) : |nearestInt q - q| ≤ 1 / 2 := by
  have hfloor : q = ⌊q⌋ + Int.fract q := (Int.floor_add_fract q).symm
  have hfract := Int.fract_nonneg q
  have hfract' := Int.fract_lt_one q
  obtain ⟨h, half⟩ | ⟨h, half⟩ := nearestInt_cases q
  · rw [h, abs_le]
    constructor <;> linarith
  · rw [h, Int.cast_add, Int.cast_one, abs_le]
    constructor <;> linarith

lemma roundDiv_eq (n : Nat) {d : Nat} (hd : 0 < d) : (roundDiv n d : ℤ) = nearestInt (n / d) := by
  have hd' : (0 : ℚ) < d := by exact_mod_cast hd
  have hlt : 2 * ((n % d : Nat) / d : ℚ) < 1 ↔ 2 * (n % d) < d := by
    rw [← mul_div_assoc, div_lt_one hd']
    exact_mod_cast Iff.rfl
  have hgt : 1 < 2 * ((n % d : Nat) / d : ℚ) ↔ d < 2 * (n % d) := by
    rw [← mul_div_assoc, one_lt_div hd']
    exact_mod_cast Iff.rfl
  simp only [nearestInt, roundDiv, Int.fract_div_natCast_eq_div_natCast_mod,
    Rat.floor_natCast_div_natCast, hlt, hgt, gt_iff_lt]
  split_ifs <;> push_cast <;> rfl

/-! ### The nearest number -/

/-- The exponent of the numbers around `q`: 53 bits before the point, no less than the least. -/
def gridExponent (q : ℚ) : ℤ := max minExponent (Int.log 2 q - 52)

/-- The number nearest to `q`; half way, the one with an even mantissa. -/
def nearest (q : ℚ) : ℚ := nearestInt (q / 2 ^ gridExponent q) * 2 ^ gridExponent q

lemma lt_two_zpow_iff {q : ℚ} (hq : 0 < q) (k : ℤ) : q < 2 ^ k ↔ Int.log 2 q < k := by
  exact_mod_cast Int.lt_zpow_iff_log_lt one_lt_two hq

lemma two_zpow_le_iff {q : ℚ} (hq : 0 < q) (k : ℤ) : 2 ^ k ≤ q ↔ k ≤ Int.log 2 q := by
  exact_mod_cast Int.zpow_le_iff_le_log one_lt_two hq

lemma minExponent_le_gridExponent (q : ℚ) : minExponent ≤ gridExponent q := le_max_left _ _

lemma div_grid_lt {q : ℚ} (hq : 0 < q) : q / 2 ^ gridExponent q < 2 ^ 53 := by
  rw [div_lt_iff₀ (by positivity), ← zpow_natCast, ← zpow_add₀ two_ne_zero, lt_two_zpow_iff hq]
  simp only [gridExponent, Nat.cast_ofNat]
  omega

lemma le_div_grid {q : ℚ} (hq : 0 < q) (h : minExponent < gridExponent q) :
    2 ^ 52 ≤ q / 2 ^ gridExponent q := by
  rw [le_div_iff₀ (by positivity), ← zpow_natCast, ← zpow_add₀ two_ne_zero, two_zpow_le_iff hq]
  simp only [gridExponent, Nat.cast_ofNat] at h ⊢
  omega

@[simp] lemma nearest_zero : nearest 0 = 0 := by
  simp [nearest]

/-- **No number is nearer.** On the grid around `q` this is so by rounding; a number off that grid
has a smaller exponent and lies below the least number of the grid. -/
theorem abs_nearest_sub_le {q : ℚ} (hq : 0 ≤ q) {m : ℕ} {e : ℤ} (bits : m ≤ 2 ^ 53)
    (least : minExponent ≤ e) : |nearest q - q| ≤ |m * 2 ^ e - q| := by
  rcases hq.eq_or_lt with rfl | hq
  · rw [nearest_zero, sub_self, abs_zero]
    exact abs_nonneg _
  have unit : (0 : ℚ) < 2 ^ gridExponent q := by positivity
  have onGrid (z : ℤ) : |nearest q - q| ≤ |z * 2 ^ gridExponent q - q| := by
    have scaled (z : ℤ) : |(z * 2 ^ gridExponent q : ℚ) - q| =
        |z - q / 2 ^ gridExponent q| * 2 ^ gridExponent q := by
      rw [← abs_of_pos unit, ← abs_mul, sub_mul, abs_of_pos unit, div_mul_cancel₀ _ unit.ne']
    rw [nearest, scaled, scaled]
    exact mul_le_mul_of_nonneg_right (abs_nearestInt_sub_le _ z) unit.le
  rcases le_or_gt (gridExponent q) e with h | h
  · have : (m * 2 ^ e : ℚ) = (m * 2 ^ (e - gridExponent q).toNat : ℤ) * 2 ^ gridExponent q := by
      push_cast
      rw [← zpow_natCast, Int.toNat_of_nonneg (by omega), mul_assoc, ← zpow_add₀ two_ne_zero,
        Int.sub_add_cancel]
    rw [this]
    exact onGrid _
  · have above : 2 ^ 52 * 2 ^ gridExponent q ≤ q :=
      (le_div_iff₀ unit).mp (le_div_grid hq (least.trans_lt h))
    have below : (m * 2 ^ e : ℚ) ≤ 2 ^ 52 * 2 ^ gridExponent q := calc
      (m * 2 ^ e : ℚ) ≤ 2 ^ 53 * 2 ^ e := by gcongr; exact_mod_cast bits
      _ = 2 ^ 52 * 2 ^ (e + 1) := by rw [zpow_add_one₀ two_ne_zero]; ring
      _ ≤ 2 ^ 52 * 2 ^ gridExponent q := by gcongr <;> [exact one_le_two; omega]
    calc |nearest q - q| ≤ |((2 ^ 52 : ℤ) : ℚ) * 2 ^ gridExponent q - q| := onGrid _
      _ = q - 2 ^ 52 * 2 ^ gridExponent q := by
        rw [abs_sub_comm, Int.cast_pow, Int.cast_ofNat, abs_of_nonneg (by linarith)]
      _ ≤ q - m * 2 ^ e := by linarith
      _ ≤ |m * 2 ^ e - q| := by rw [abs_sub_comm]; exact le_abs_self _

/-- What is nearest is itself a number. -/
lemma exists_nearest_eq {q : ℚ} (hq : 0 ≤ q) :
    ∃ (m : ℕ) (e : ℤ), m ≤ 2 ^ 53 ∧ minExponent ≤ e ∧ nearest q = m * 2 ^ e := by
  rcases hq.eq_or_lt with rfl | hq
  · exact ⟨0, minExponent, by norm_num, le_rfl, by simp⟩
  · have least : 0 ≤ nearestInt (q / 2 ^ gridExponent q) :=
      le_nearestInt (by push_cast; positivity)
    have bits : nearestInt (q / 2 ^ gridExponent q) ≤ 2 ^ 53 :=
      nearestInt_le (by push_cast; exact (div_grid_lt hq).le)
    refine ⟨(nearestInt (q / 2 ^ gridExponent q)).toNat, gridExponent q, by omega,
      minExponent_le_gridExponent q, ?_⟩
    rw [nearest]
    congr 1
    exact_mod_cast (Int.toNat_of_nonneg least).symm

/-- The larger of two numbers is the nearer one only from half way on. -/
lemma add_le_two_mul_of_nearer {x y q : ℚ} (h : y < x) (nearer : |x - q| ≤ |y - q|) :
    x + y ≤ 2 * q := by
  have := sq_le_sq.mpr nearer
  nlinarith

lemma two_mul_le_add_of_nearer {x y q : ℚ} (h : y < x) (nearer : |y - q| ≤ |x - q|) :
    2 * q ≤ x + y := by
  have := sq_le_sq.mpr nearer
  nlinarith

theorem nearest_mono {q q' : ℚ} (hq : 0 ≤ q) (h : q ≤ q') : nearest q ≤ nearest q' := by
  rcases h.eq_or_lt with rfl | h
  · exact le_rfl
  by_contra hlt
  obtain ⟨m, e, bits, least, hm⟩ := exists_nearest_eq hq
  obtain ⟨m', e', bits', least', hm'⟩ := exists_nearest_eq (hq.trans h.le)
  have upper := add_le_two_mul_of_nearer (not_le.mp hlt)
    (hm' ▸ abs_nearest_sub_le hq bits' least')
  have lower := two_mul_le_add_of_nearer (not_le.mp hlt)
    (hm ▸ abs_nearest_sub_le (hq.trans h.le) bits least)
  linarith

lemma Canonical.value_nonneg {x : Binary64} (h : x.Canonical) : 0 ≤ x.value := by
  obtain @⟨m, e, -, -, -⟩ := h
  simp only [value, Bool.false_eq_true, if_false]
  positivity

lemma Canonical.abs_nearest_sub_le {x : Binary64} (h : x.Canonical) {q : ℚ} (hq : 0 ≤ q) :
    |nearest q - q| ≤ |x.value - q| := by
  obtain @⟨m, e, least, bits, -⟩ := h
  exact Binary64.abs_nearest_sub_le hq bits.le least

theorem Canonical.nearest_value {x : Binary64} (h : x.Canonical) : nearest x.value = x.value := by
  have := h.abs_nearest_sub_le h.value_nonneg
  rw [sub_self, abs_zero] at this
  exact sub_eq_zero.mp (abs_nonpos_iff.mp this)

/-- Between zero and one there is a number in every `2 ^ (-53)`. -/
theorem abs_nearest_sub_le_of_le_one {q : ℚ} (hq : 0 ≤ q) (hq' : q ≤ 1) :
    |nearest q - q| ≤ 1 / 2 ^ 54 := by
  have least : 0 ≤ nearestInt (q * 2 ^ 53) := le_nearestInt (by push_cast; positivity)
  have bits : nearestInt (q * 2 ^ 53) ≤ 2 ^ 53 := nearestInt_le (by push_cast; linarith)
  have hcast : ((nearestInt (q * 2 ^ 53)).toNat : ℚ) = nearestInt (q * 2 ^ 53) := by
    exact_mod_cast Int.toNat_of_nonneg least
  calc |nearest q - q|
      ≤ |((nearestInt (q * 2 ^ 53)).toNat : ℚ) * 2 ^ (-53 : ℤ) - q| :=
        abs_nearest_sub_le hq (by omega) (by decide)
    _ = |nearestInt (q * 2 ^ 53) - q * 2 ^ 53| / 2 ^ 53 := by
        rw [hcast, ← abs_of_pos (show (0 : ℚ) < 2 ^ 53 by positivity), ← abs_div, sub_div,
          abs_of_pos (show (0 : ℚ) < 2 ^ 53 by positivity),
          mul_div_cancel_right₀ _ (by positivity), zpow_neg, ← div_eq_mul_inv]
        norm_num
    _ ≤ 1 / 2 / 2 ^ 53 := by gcongr; exact abs_nearestInt_sub_le_half _
    _ = 1 / 2 ^ 54 := by norm_num

/-! ### Quotients -/

/-- Dividing after both are scaled divides the quotient by the power. -/
lemma scaled_div (num : Nat) {den : Nat} (hden : 0 < den) (e : Int) :
    0 < (scaled num den e).2 ∧
      ((scaled num den e).1 / (scaled num den e).2 : ℚ) = num / den / 2 ^ e := by
  have hden' : (den : ℚ) ≠ 0 := by positivity
  unfold scaled
  split_ifs with he
  · refine ⟨hden, ?_⟩
    rw [Nat.cast_mul, pow2_toNat_cast (by omega), zpow_neg]
    field_simp
  · refine ⟨Nat.mul_pos hden (Nat.pow_pos two_pos), ?_⟩
    rw [Nat.cast_mul, pow2_toNat_cast (by omega)]
    field_simp

/-- The lengths of the two numbers tell the logarithm of their quotient up to one. -/
lemma log_div_mem {num den : Nat} (hnum : 0 < num) (hden : 0 < den) :
    (num.log2 : ℤ) - den.log2 - 1 ≤ Int.log 2 (num / den : ℚ) ∧
      Int.log 2 (num / den : ℚ) < (num.log2 : ℤ) - den.log2 + 1 := by
  have bounds {n : Nat} (hn : 0 < n) :
      (2 : ℚ) ^ (n.log2 : ℤ) ≤ n ∧ (n : ℚ) < 2 ^ (n.log2 + 1 : ℤ) := by
    constructor
    · exact_mod_cast Nat.log2_self_le hn.ne'
    · exact_mod_cast Nat.lt_log2_self
  obtain ⟨num_ge, num_lt⟩ := bounds hnum
  obtain ⟨den_ge, den_lt⟩ := bounds hden
  have hden' : (0 : ℚ) < den := by positivity
  rw [← two_zpow_le_iff (by positivity), ← lt_two_zpow_iff (by positivity), le_div_iff₀ hden',
    div_lt_iff₀ hden']
  constructor
  · calc (2 : ℚ) ^ ((num.log2 : ℤ) - den.log2 - 1) * den
        ≤ 2 ^ ((num.log2 : ℤ) - den.log2 - 1) * 2 ^ (den.log2 + 1 : ℤ) := by gcongr
      _ = 2 ^ (num.log2 : ℤ) := by rw [← zpow_add₀ two_ne_zero]; congr 1; omega
      _ ≤ num := num_ge
  · calc (num : ℚ) < 2 ^ (num.log2 + 1 : ℤ) := num_lt
      _ = 2 ^ ((num.log2 : ℤ) - den.log2 + 1) * 2 ^ (den.log2 : ℤ) := by
        rw [← zpow_add₀ two_ne_zero]; congr 1; omega
      _ ≤ 2 ^ ((num.log2 : ℤ) - den.log2 + 1) * den := by gcongr

lemma exponentOf_eq {num den : Nat} (hnum : 0 < num) (hden : 0 < den) :
    exponentOf num den = gridExponent (num / den) := by
  have hlog := log_div_mem hnum hden
  have hq : (0 : ℚ) < num / den := by positivity
  simp only [exponentOf, gridExponent]
  generalize he : (num.log2 : Int) - den.log2 - 52 = e
  obtain ⟨hd, hscaled⟩ := scaled_div num hden e
  -- The quotient misses the leading bit when the logarithm is the smaller of the two.
  have hsmall : (scaled num den e).1 / (scaled num den e).2 < leastNormal ↔
      Int.log 2 (num / den : ℚ) < e + 52 := by
    rw [Nat.div_lt_iff_lt_mul hd, ← lt_two_zpow_iff hq, ← Nat.cast_lt (α := ℚ), Nat.cast_mul,
      ← div_lt_iff₀ (by positivity), hscaled, div_lt_iff₀ (by positivity), leastNormal, pow2_cast,
      ← zpow_natCast, ← zpow_add₀ two_ne_zero, add_comm]
    rfl
  simp only [hsmall]
  split_ifs <;> omega

lemma gridExponent_le_of_le_one {q : ℚ} (hq : 0 < q) (hq' : q ≤ 1) : gridExponent q ≤ -52 := by
  have : Int.log 2 q < 1 := (lt_two_zpow_iff hq 1).mp (by linarith)
  simp only [gridExponent, minExponent]
  omega

/-- **A quotient is the number nearest to it**, in its one form. -/
theorem ofRatio_canonical_and_value {num den : Nat} (hden : 0 < den) (hle : num ≤ den) :
    (ofRatio false num den).Canonical ∧ (ofRatio false num den).value = nearest (num / den) := by
  rcases Nat.eq_zero_or_pos num with rfl | hnum
  · exact ⟨.mk le_rfl (by norm_num) (.inl rfl), by simp [ofRatio, value]⟩
  have hq : (0 : ℚ) < num / den := by positivity
  have hq' : (num / den : ℚ) ≤ 1 := div_le_one_of_le₀ (by exact_mod_cast hle) (by positivity)
  have hexp := gridExponent_le_of_le_one hq hq'
  have least := minExponent_le_gridExponent (num / den)
  have leading := le_div_grid hq
  have bits := nearestInt_le (z := 2 ^ 53) (by push_cast; exact (div_grid_lt hq).le)
  simp only [ofRatio, hnum.ne', if_false, exponentOf_eq hnum hden, nearest]
  generalize gridExponent (num / den) = e at *
  obtain ⟨hd, hscaled⟩ := scaled_div num hden e
  have hround := roundDiv_eq (scaled num den e).1 hd
  rw [hscaled] at hround
  generalize roundDiv (scaled num den e).1 (scaled num den e).2 = m at *
  rw [← hround] at bits ⊢
  have leading' : e = minExponent ∨ 2 ^ 52 ≤ m := by
    rcases least.eq_or_lt with h | h
    · exact .inl h.symm
    · have := le_nearestInt (z := 2 ^ 52) (by push_cast; exact leading h)
      omega
  -- Rounding up to the next power of two takes one bit more, and that power has its own form.
  by_cases carry : m = 2 * leastNormal
  · have hmax : ¬ e + 1 > maxExponent := by simp only [maxExponent]; omega
    simp only [carry, if_true, hmax, if_false]
    refine ⟨.mk (by omega) (by decide) (.inr le_rfl), ?_⟩
    simp only [value, Bool.false_eq_true, if_false, zpow_add_one₀ (two_ne_zero (α := ℚ))]
    push_cast
    ring
  · have hmax : ¬ e > maxExponent := by simp only [maxExponent]; omega
    simp only [carry, if_false, hmax]
    refine ⟨.mk least ?_ leading', ?_⟩
    · have : (2 : ℕ) * leastNormal = 2 ^ 53 := by decide
      omega
    · simp [value]

lemma ofInt_one : ofInt 1 = .finite false leastNormal (-52) := by decide

@[simp] lemma value_ofInt_one : (ofInt 1).value = 1 := by
  rw [ofInt_one]
  simp only [value, Bool.false_eq_true, if_false, leastNormal, pow2_cast]
  norm_num

lemma canonical_ofInt_one : (ofInt 1).Canonical := by
  rw [ofInt_one]
  exact .mk (by decide) (by decide) (.inr le_rfl)

@[simp] lemma nearest_one : nearest 1 = 1 := by
  simpa using canonical_ofInt_one.nearest_value

end Trazo.Binary64

namespace Trazo.Number

open Binary64

/-- A proportion is a finite number from zero to one. -/
lemma isProportion_iff (x : Number) :
    x.isProportion ↔
      x.toBinary64.isFinite ∧ 0 ≤ x.toBinary64.value ∧ x.toBinary64.value ≤ 1 := by
  rw [isProportion, Bool.and_eq_true]
  cases hx : x.toBinary64 with
  | finite n m e =>
    rw [le_iff_value_le rfl rfl, le_iff_value_le rfl canonical_ofInt_one.isFinite, value_ofInt_one]
    simp [zero, value, isFinite]
  | infinite n => cases n <;> simp [zero, le, ofInt_one, isFinite]
  | nan => simp [zero, le, isFinite]

end Trazo.Number
