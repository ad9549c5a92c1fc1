import Mathlib.Data.List.MinMax
import Mathlib.Data.Prod.Lex
import Mathlib.Data.String.Basic
import Trazo.Proofs.Number.Rounding
import Trazo.Proofs.Similarity.Blocks

/-!
Which candidate is suggested.

The ratio of two words is a fraction, `exactRatio`, and what is compared is the binary number
nearest to it. The two bounds that are tried first are ratios of larger counts of characters, so
they never turn away a candidate that the ratio itself would keep (`isNear_iff`), and the suggested
word is the greatest of the near ones (`suggestWithin_greatest`). A known word matches itself
entirely, and no other word does: it is never corrected (`suggestWithin_known`).
-/

namespace Trazo.Similarity

open Binary64

/-! ### Ratios as fractions -/

/-- The fraction `2 * n / total`, and one when there is nothing to compare. -/
def exactProportion (n total : Nat) : ℚ := if total = 0 then 1 else 2 * n / total

/-- Twice the number of matched characters over the number of all characters. -/
def exactRatio (candidate word : List Char) : ℚ :=
  exactProportion (matched (popular word) candidate word) (candidate.length + word.length)

/-- The ratio that is compared: the number nearest to the fraction. -/
def roundedRatio (candidate word : List Char) : ℚ := nearest (exactRatio candidate word)

lemma exactProportion_nonneg (n total : Nat) : 0 ≤ exactProportion n total := by
  unfold exactProportion
  split_ifs
  · exact zero_le_one
  · positivity

lemma exactProportion_le_one {n total : Nat} (h : 2 * n ≤ total) : exactProportion n total ≤ 1 := by
  unfold exactProportion
  split_ifs
  · exact le_rfl
  · exact div_le_one_of_le₀ (by exact_mod_cast h) (by positivity)

lemma exactProportion_mono {n n' : Nat} (h : n ≤ n') (total : Nat) :
    exactProportion n total ≤ exactProportion n' total := by
  unfold exactProportion
  split_ifs
  · exact le_rfl
  · gcongr

/-- The ratio as it is computed is the nearest number, in its one form. -/
lemma proportion_canonical_and_value {n total : Nat} (h : 2 * n ≤ total) :
    (proportion n total).Canonical ∧
      (proportion n total).value = nearest (exactProportion n total) := by
  unfold proportion exactProportion
  split_ifs with htotal
  · exact ⟨canonical_ofInt_one, by simp⟩
  · have := ofRatio_canonical_and_value (by omega : 0 < total) h
    exact_mod_cast this

lemma exactRatio_nonneg (c w : List Char) : 0 ≤ exactRatio c w := exactProportion_nonneg _ _

lemma exactRatio_le_one (c w : List Char) : exactRatio c w ≤ 1 :=
  exactProportion_le_one (two_mul_matched_le _ c w)

lemma ratio_canonical (c w : List Char) : (ratio c w).Canonical :=
  (proportion_canonical_and_value (two_mul_matched_le _ c w)).1

lemma value_ratio (c w : List Char) : (ratio c w).value = roundedRatio c w :=
  (proportion_canonical_and_value (two_mul_matched_le _ c w)).2

lemma abs_roundedRatio_sub_le (c w : List Char) :
    |roundedRatio c w - exactRatio c w| ≤ 1 / 2 ^ 54 :=
  abs_nearest_sub_le_of_le_one (exactRatio_nonneg c w) (exactRatio_le_one c w)

lemma roundedRatio_le_one (c w : List Char) : roundedRatio c w ≤ 1 := by
  have := nearest_mono (exactRatio_nonneg c w) (exactRatio_le_one c w)
  rwa [nearest_one] at this

/-! ### The order of candidates -/

/-- The place of a candidate: by the ratio that is compared, then by its characters. -/
def rank (word c : String) : ℚ ×ₗ String := toLex (roundedRatio c.toList word.toList, c)

lemma rank_injective (word : String) : Function.Injective (rank word) := by
  intro c c' h
  exact congrArg (fun k : ℚ ×ₗ String => (ofLex k).2) h

lemma precedes_iff (word c c' : String) :
    precedes (ratio c.toList word.toList, c) (ratio c'.toList word.toList, c') ↔
      rank word c < rank word c' := by
  have hc := ratio_canonical c.toList word.toList
  have hc' := ratio_canonical c'.toList word.toList
  rw [rank, rank, Prod.Lex.toLex_lt_toLex, ← value_ratio, ← value_ratio]
  unfold precedes
  split_ifs with h
  · rw [show ratio c.toList word.toList = ratio c'.toList word.toList from h]
    simp only [lt_irrefl, true_and, false_or, decide_eq_true_eq]
  · have hne : (ratio c.toList word.toList).value ≠ (ratio c'.toList word.toList).value :=
      fun heq => h (hc.eq_of_value_eq hc' heq)
    rw [le_iff_value_le hc.isFinite hc'.isFinite, le_iff_lt_or_eq]
    simp only [hne, false_and]

/-- **The quick bounds turn nothing away.** They count more characters as matched. -/
theorem isNear_iff {cutoff : Binary64} (hcutoff : cutoff.isFinite) (c w : List Char) :
    isNear cutoff c w ↔ cutoff.value ≤ roundedRatio c w := by
  have atMost {n : Nat} (h : matched (popular w) c w ≤ n) (h' : 2 * n ≤ c.length + w.length)
      (hle : cutoff.value ≤ roundedRatio c w) : cutoff.le (proportion n (c.length + w.length)) := by
    obtain ⟨canonical, hvalue⟩ := proportion_canonical_and_value h'
    rw [le_iff_value_le hcutoff canonical.isFinite, hvalue]
    exact hle.trans (nearest_mono (exactRatio_nonneg c w) (exactProportion_mono h _))
  rw [isNear, Bool.and_eq_true, Bool.and_eq_true,
    le_iff_value_le hcutoff (ratio_canonical c w).isFinite, value_ratio]
  refine ⟨fun h => h.2, fun h => ⟨⟨atMost ?_ ?_ h, atMost ?_ ?_ h⟩, h⟩⟩
  · exact le_min (matched_le_first _ c w) (matched_le_second _ c w)
  · omega
  · exact matched_le_shared _ c w
  · exact two_mul_shared_le c w

/-- A candidate with its ratio, as the scan carries it along. -/
def scored (word c : String) : Binary64 × String := (ratio c.toList word.toList, c)

/-- The scan keeps the candidate of the highest rank. -/
lemma foldl_scored (word : String) (kept : List String) (best : Option String) :
    (kept.map (scored word)).foldl (fun best s => match best with
        | none => some s
        | some b => if precedes b s then some s else some b) (best.map (scored word)) =
      (kept.foldl (List.argAux fun b c => rank word c < rank word b) best).map (scored word) := by
  induction kept generalizing best with
  | nil => rfl
  | cons c kept ih =>
    rw [List.map_cons, List.foldl_cons, List.foldl_cons, ← ih]
    congr 1
    cases best with
    | none => rfl
    | some b =>
      simp only [Option.map_some, List.argAux, scored, precedes_iff]
      split_ifs <;> rfl

lemma nearest?_eq_argmax {cutoff : Binary64} (hcutoff : cutoff.isFinite) (word : String)
    (candidates : List String) :
    nearest? cutoff word candidates =
      (candidates.filter fun c => cutoff.value ≤ roundedRatio c.toList word.toList).argmax
        (rank word) := by
  have near : (fun c : String => isNear cutoff c.toList word.toList) =
      fun c => decide (cutoff.value ≤ roundedRatio c.toList word.toList) := by
    funext c
    rw [Bool.eq_iff_iff, isNear_iff hcutoff, decide_eq_true_iff]
  rw [nearest?, near]
  refine (congrArg (Option.map Prod.snd) (foldl_scored word _ none)).trans ?_
  rw [Option.map_map]
  exact Option.map_id_apply

lemma nearest?_eq_some_iff {cutoff : Binary64} (hcutoff : cutoff.isFinite) (word s : String)
    (candidates : List String) :
    nearest? cutoff word candidates = some s ↔
      s ∈ candidates ∧ cutoff.value ≤ roundedRatio s.toList word.toList ∧
        ∀ c ∈ candidates, cutoff.value ≤ roundedRatio c.toList word.toList →
          rank word c ≤ rank word s := by
  rw [nearest?_eq_argmax hcutoff, List.argmax_eq_some_iff]
  simp only [List.mem_filter, decide_eq_true_eq, and_imp]
  constructor
  · rintro ⟨⟨hs, hnear⟩, greatest, -⟩
    exact ⟨hs, hnear, greatest⟩
  · rintro ⟨hs, hnear, greatest⟩
    refine ⟨⟨hs, hnear⟩, greatest, fun c hc hnear' hle => ?_⟩
    rw [rank_injective word ((greatest c hc hnear').antisymm hle)]

/-! ### The suggestion -/

lemma suggestWithin_eq {cutoff : Number} (hcutoff : cutoff.isProportion) (word : String)
    (candidates : List String) :
    suggestWithin cutoff word candidates = .ok (suggestAt cutoff.toBinary64 word candidates) :=
  if_pos hcutoff

lemma suggestAt_eq_some_iff {cutoff : Binary64} (word s : String) (candidates : List String) :
    suggestAt cutoff word candidates = some s ↔
      nearest? cutoff word candidates = some s ∧ s ≠ word := by
  simp [suggestAt, Option.filter_eq_some_iff]

/-- The ratio as a quotient of whole numbers, with a divisor that is never zero. -/
lemma exists_exactRatio_eq (c w : List Char) :
    ∃ p d : Nat, 0 < d ∧ d ≤ max 1 (c.length + w.length) ∧ exactRatio c w = p / d := by
  unfold exactRatio exactProportion
  split_ifs with h
  · exact ⟨1, 1, one_pos, le_max_left _ _, by norm_num⟩
  · exact ⟨2 * matched (popular w) c w, c.length + w.length, by omega, le_max_right _ _,
      by push_cast; rfl⟩

/-- Two fractions that differ do so by at least the product of what both are divided by. -/
lemma le_div_sub_div {p d p' d' : Nat} (hd : 0 < d) (hd' : 0 < d')
    (h : (p / d : ℚ) < p' / d') : 1 / (d * d' : ℚ) ≤ p' / d' - p / d := by
  have hd : (0 : ℚ) < d := by exact_mod_cast hd
  have hd' : (0 : ℚ) < d' := by exact_mod_cast hd'
  have hcross : p * d' + 1 ≤ p' * d := by
    rw [div_lt_div_iff₀ hd hd'] at h
    exact_mod_cast h
  rw [div_sub_div _ _ hd'.ne' hd.ne', mul_comm (d' : ℚ) d,
    div_le_div_iff_of_pos_right (by positivity)]
  have : (p * d' + 1 : ℚ) ≤ p' * d := by exact_mod_cast hcross
  linarith

/-- A difference of two ratios of words that are not too long survives rounding. -/
lemma roundedRatio_lt_iff {c c' w : List Char} (hc : c.length + w.length ≤ 2 ^ 26)
    (hc' : c'.length + w.length ≤ 2 ^ 26) :
    roundedRatio c w < roundedRatio c' w ↔ exactRatio c w < exactRatio c' w := by
  constructor
  · intro h
    by_contra hle
    exact absurd (nearest_mono (exactRatio_nonneg c' w) (not_lt.mp hle)) (not_le.mpr h)
  · intro h
    obtain ⟨p, d, hpos, hd, hp⟩ := exists_exactRatio_eq c w
    obtain ⟨p', d', hpos', hd', hp'⟩ := exists_exactRatio_eq c' w
    have near := abs_le.mp (abs_roundedRatio_sub_le c w)
    have near' := abs_le.mp (abs_roundedRatio_sub_le c' w)
    have apart : 1 / 2 ^ 52 ≤ exactRatio c' w - exactRatio c w := by
      have hprod : d * d' ≤ 2 ^ 26 * 2 ^ 26 :=
        Nat.mul_le_mul (hd.trans (max_le (by norm_num) hc)) (hd'.trans (max_le (by norm_num) hc'))
      rw [hp, hp'] at h ⊢
      refine le_trans ?_ (le_div_sub_div hpos hpos' h)
      have : (d * d' : ℚ) ≤ 2 ^ 52 := by exact_mod_cast hprod
      have : (0 : ℚ) < d * d' := by positivity
      gcongr
    have : (1 / 2 ^ 54 + 1 / 2 ^ 54 : ℚ) < 1 / 2 ^ 52 := by norm_num
    linarith

/-- **The suggestion is the greatest near candidate.** With a cutoff from zero to one there is
always an answer. It is `s` exactly when `s` is a candidate whose ratio reaches the cutoff, no such
candidate has a higher rank, and `s` is not the word itself. The ratio that counts is the number
nearest to the fraction: rounding turns away no candidate whose fraction reaches the cutoff, and
between candidates of up to `2 ^ 26` characters, the word included, it changes no order. -/
theorem suggestWithin_greatest (cutoff : Number) (word : String) (candidates : List String)
    (hcutoff : cutoff.isProportion) :
    (∃ answer, suggestWithin cutoff word candidates = .ok answer ∧ ∀ s, answer = some s ↔
      s ∈ candidates ∧ cutoff.toBinary64.value ≤ roundedRatio s.toList word.toList ∧
        (∀ c ∈ candidates, cutoff.toBinary64.value ≤ roundedRatio c.toList word.toList →
          rank word c ≤ rank word s) ∧
        s ≠ word) ∧
    (∀ c : String, isNear cutoff.toBinary64 c.toList word.toList ↔
      cutoff.toBinary64.value ≤ roundedRatio c.toList word.toList) ∧
    (∀ (c : String) (x : Binary64), x.Canonical →
      |roundedRatio c.toList word.toList - exactRatio c.toList word.toList| ≤
        |x.value - exactRatio c.toList word.toList|) ∧
    (∀ c : String, cutoff.toBinary64.Canonical →
      cutoff.toBinary64.value ≤ exactRatio c.toList word.toList →
        cutoff.toBinary64.value ≤ roundedRatio c.toList word.toList) ∧
    ∀ c c' : String, c.length + word.length ≤ 2 ^ 26 → c'.length + word.length ≤ 2 ^ 26 →
      (roundedRatio c.toList word.toList < roundedRatio c'.toList word.toList ↔
        exactRatio c.toList word.toList < exactRatio c'.toList word.toList) := by
  obtain ⟨finite, -, -⟩ := (Number.isProportion_iff cutoff).mp hcutoff
  refine ⟨⟨_, suggestWithin_eq hcutoff word candidates, fun s => ?_⟩,
    fun c => isNear_iff finite _ _, fun c x hx => ?_, fun c hcanonical hle => ?_,
    fun c c' hc hc' => ?_⟩
  · rw [suggestAt_eq_some_iff, nearest?_eq_some_iff finite]
    simp only [and_assoc]
  · exact hx.abs_nearest_sub_le (exactRatio_nonneg _ _)
  · rw [← hcanonical.nearest_value]
    exact nearest_mono hcanonical.value_nonneg hle
  · rw [← String.length_toList, ← String.length_toList] at hc hc'
    exact roundedRatio_lt_iff hc hc'

/-- A letter too many is found: `sino` is suggested for `sinno`, and `si` is not near enough. -/
theorem suggestWithin_greatest_sino :
    (Number.real usualCutoff).isProportion ∧
      suggestWithin (.real usualCutoff) "sinno" ["sino", "si"] = .ok (some "sino") := by
  have finite : usualCutoff.isFinite := by decide
  have near (c : String) :
      usualCutoff.value ≤ roundedRatio c.toList "sinno".toList ↔
        usualCutoff.le (ratio c.toList "sinno".toList) := by
    rw [le_iff_value_le finite (ratio_canonical _ _).isFinite, value_ratio]
  have hcutoff : (Number.real usualCutoff).isProportion := by decide +kernel
  obtain ⟨⟨answer, hanswer, greatest⟩, -⟩ :=
    suggestWithin_greatest (.real usualCutoff) "sinno" ["sino", "si"] hcutoff
  have found := (greatest "sino").mpr ⟨by decide, ?_, ?_, by decide⟩
  · exact ⟨hcutoff, found ▸ hanswer⟩
  · exact (near "sino").mpr (by decide +kernel)
  · intro c hc hle
    rcases List.mem_pair.mp hc with rfl | rfl
    · exact le_rfl
    · exact absurd ((near "si").mp hle) (by decide +kernel)

/-- The ratio of `acd` and `ab` is two fifths, just below the binary number that is written `0.4`;
but that number is also the nearest to the ratio, so with it as the cutoff `acd` is suggested. -/
theorem suggested_below_cutoff :
    (Number.real (.ofDecimal false 4 (-1))).isProportion ∧
      suggestWithin (.real (.ofDecimal false 4 (-1))) "ab" ["acd"] = .ok (some "acd") ∧
      exactRatio "acd".toList "ab".toList < (ofDecimal false 4 (-1)).value := by
  refine ⟨by decide +kernel, by decide +kernel, ?_⟩
  have hcutoff : ofDecimal false 4 (-1) = .finite false 7205759403792794 (-54) := by decide +kernel
  have hmatched : matched (popular "ab".toList) "acd".toList "ab".toList = 1 := by decide +kernel
  have htotal : "acd".toList.length + "ab".toList.length = 5 := rfl
  rw [exactRatio, hmatched, htotal, hcutoff]
  norm_num [exactProportion, value]

/-! ### Known words -/

/-- Only the word itself has a ratio of one. -/
lemma exactRatio_lt_one {c w : List Char} (h : c ≠ w) : exactRatio c w < 1 := by
  have hlt := two_mul_matched_lt (popular w) h
  rw [exactRatio, exactProportion, if_neg (by omega), div_lt_one (by exact_mod_cast (by omega))]
  exact_mod_cast hlt

lemma exactRatio_self (w : List Char) : exactRatio w w = 1 := by
  rw [exactRatio, matched_self, exactProportion]
  split_ifs with h
  · rfl
  · rw [← two_mul, Nat.cast_mul, Nat.cast_ofNat, div_self]
    exact_mod_cast (by omega : 2 * w.length ≠ 0)

lemma roundedRatio_self (w : List Char) : roundedRatio w w = 1 := by
  rw [roundedRatio, exactRatio_self, nearest_one]

/-- Rounding does not reach one as long as a number of characters is itself a binary number. -/
lemma roundedRatio_lt_one {c w : List Char} (h : c ≠ w) (hlength : c.length + w.length ≤ 2 ^ 53) :
    roundedRatio c w < 1 := by
  have hlt := two_mul_matched_lt (popular w) h
  have htotal : (0 : ℚ) < (c.length + w.length : Nat) := by exact_mod_cast (by omega)
  have apart : exactRatio c w + 1 / 2 ^ 54 < 1 := by
    rw [exactRatio, exactProportion, if_neg (by omega),
      div_add_div _ _ htotal.ne' (by norm_num), div_lt_one (by positivity)]
    exact_mod_cast (by omega)
  have := (abs_le.mp (abs_roundedRatio_sub_le c w)).2
  linarith

/-- **A known word is never corrected.** Its ratio with itself is one, and no other word's is, so it
is the only candidate that can have the highest rank. The one way out is rounding, and that takes a
candidate of more than `2 ^ 53` characters, the word included. -/
theorem suggestWithin_known (cutoff : Number) (word : String) (candidates : List String)
    (hcutoff : cutoff.isProportion) (hword : word ∈ candidates) :
    exactRatio word.toList word.toList = 1 ∧ roundedRatio word.toList word.toList = 1 ∧
    (∀ c : String, c ≠ word → exactRatio c.toList word.toList < 1) ∧
    (suggestWithin cutoff word candidates = .ok none ∨
      ∃ c ∈ candidates, c ≠ word ∧ roundedRatio c.toList word.toList = 1 ∧
        2 ^ 53 < c.length + word.length) := by
  obtain ⟨finite, -, le_one⟩ := (Number.isProportion_iff cutoff).mp hcutoff
  refine ⟨exactRatio_self _, roundedRatio_self _,
    fun c hc => exactRatio_lt_one (mt String.toList_inj.mp hc), ?_⟩
  rw [suggestWithin_eq hcutoff]
  cases hanswer : suggestAt cutoff.toBinary64 word candidates with
  | none => exact .inl rfl
  | some s =>
    rw [suggestAt_eq_some_iff, nearest?_eq_some_iff finite] at hanswer
    obtain ⟨⟨hs, -, greatest⟩, hne⟩ := hanswer
    have ranks := greatest word hword (by rw [roundedRatio_self]; exact le_one)
    have hone : roundedRatio s.toList word.toList = 1 := by
      rw [rank, rank, Prod.Lex.toLex_le_toLex, roundedRatio_self] at ranks
      refine le_antisymm (roundedRatio_le_one _ _) ?_
      rcases ranks with h | ⟨h, -⟩
      · exact h.le
      · exact h.le
    refine .inr ⟨s, hs, hne, hone, ?_⟩
    by_contra hlength
    rw [not_lt, ← String.length_toList, ← String.length_toList] at hlength
    exact absurd hone (roundedRatio_lt_one (mt String.toList_inj.mp hne) hlength).ne

/-- Also where the search skips every character, and with a candidate that comes later. -/
theorem suggestWithin_known_long :
    ∃ word : String, word.length = 200 ∧ popular word.toList = ['a'] ∧
      word ∈ [word ++ "b", word] ∧ (Number.whole 0).isProportion ∧
      suggestWithin (.whole 0) word [word ++ "b", word] = .ok none := by
  have hlong : (String.ofList (List.replicate 200 'a')).length = 200 := by
    rw [String.length_ofList, List.length_replicate]
  have hpopular : popular (String.ofList (List.replicate 200 'a')).toList = ['a'] := by
    rw [String.toList_ofList]
    decide +kernel
  refine ⟨String.ofList (List.replicate 200 'a'), hlong, hpopular, ?_⟩
  generalize String.ofList (List.replicate 200 'a') = word at *
  have hword : word ∈ [word ++ "b", word] := by simp
  have hcutoff : (Number.whole 0).isProportion := by decide +kernel
  refine ⟨hword, hcutoff, (suggestWithin_known _ _ _ hcutoff hword).2.2.2.resolve_right ?_⟩
  rintro ⟨c, hc, -, -, hlength⟩
  rcases List.mem_pair.mp hc with rfl | rfl
  · rw [String.length_append, hlong] at hlength
    exact absurd hlength (by decide)
  · rw [hlong] at hlength
    exact absurd hlength (by decide)

end Trazo.Similarity
