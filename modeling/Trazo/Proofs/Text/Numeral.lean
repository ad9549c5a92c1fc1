import Mathlib.Data.List.Forall2
import Mathlib.Data.Nat.Digits.Defs
import Trazo.Text.Integer

/-!
Numerals in the decimal digits of any script.

A numeral is read as the number that its digits write in base ten, unless they are too many. A text
may also hold signs that stand for a digit without being one. The digits before the first such sign
are counted as those of a numeral are, and then the text is refused.
-/

namespace Trazo.Text

variable {cs w r : List Char} {c : Char} {ds : List Nat} {n : Nat}

/-! ### Digits and signs -/

/-- The characters are the decimal digits `ds`, in any scripts. -/
def Digits (cs : List Char) (ds : List Nat) : Prop :=
  List.Forall₂ (fun c d => digit? c = some d) cs ds

/-- The text is a numeral of the number. -/
def Denotes (cs : List Char) (n : Nat) : Prop :=
  cs ≠ [] ∧ ∃ ds, Digits cs ds ∧ n = Nat.ofDigits 10 ds.reverse

lemma ofDigits_eq (ds : List Nat) : ofDigits ds = Nat.ofDigits 10 ds.reverse := by
  simp [ofDigits, Nat.ofDigits_eq_foldr, Nat.add_comm]

lemma exists_digits_iff : (∃ ds, Digits cs ds) ↔ ∀ c ∈ cs, (digit? c).isSome := by
  induction cs with
  | nil => simp [Digits]
  | cons c cs ih =>
    rw [List.forall_mem_cons, ← ih]
    constructor
    · rintro ⟨_, _ | ⟨hc, hcs⟩⟩
      exact ⟨Option.isSome_of_eq_some hc, _, hcs⟩
    · rintro ⟨hc, ds, hcs⟩
      obtain ⟨d, hd⟩ := Option.isSome_iff_exists.mp hc
      exact ⟨d :: ds, .cons hd hcs⟩

lemma Digits.unique {ds' : List Nat} (h : Digits cs ds) (h' : Digits cs ds') : ds = ds' := by
  induction h generalizing ds' with
  | nil =>
    cases h'
    rfl
  | cons hd _ ih =>
    obtain _ | ⟨hd', hds'⟩ := h'
    rw [Option.some.inj (hd.symm.trans hd'), ih hds']

lemma isBlank_of_digit? (h : (digit? c).isSome) : isBlank c = false := by
  have hapart : ∀ z ∈ zeros, ∀ b ∈ blankRanges, z + 9 < b.1 ∨ b.2 < z := by decide
  simp only [digit?, Option.isSome_map, List.find?_isSome, Bool.and_eq_true,
    decide_eq_true_eq] at h
  obtain ⟨z, hz, hlow, hhigh⟩ := h
  simp only [isBlank, List.any_eq_false, Bool.and_eq_true, decide_eq_true_eq]
  intro b hb
  have := hapart z hz b hb
  omega

/-- What stands for a digit is no white space. -/
lemma isBlank_of_isDigitLike (h : isDigitLike c = true) : isBlank c = false := by
  rcases Bool.or_eq_true_iff.mp h with h | h
  · exact isBlank_of_digit? h
  · have hapart : ∀ s ∈ digitSigns, ∀ b ∈ blankRanges, s.2 < b.1 ∨ b.2 < s.1 := by decide
    simp only [List.any_eq_true, Bool.and_eq_true, decide_eq_true_eq] at h
    obtain ⟨s, hs, hlow, hhigh⟩ := h
    simp only [isBlank, List.any_eq_false, Bool.and_eq_true, decide_eq_true_eq]
    intro b hb
    have := hapart s hs b hb
    omega

lemma isDigitLike_of_digit? (h : (digit? c).isSome) : isDigitLike c = true := by
  simp [isDigitLike, h]

/-- What stands for a digit is no character that does not. -/
lemma ne_of_isDigitLike {x : Char} (h : isDigitLike c = true) (hx : isDigitLike x = false) :
    c ≠ x := by
  rintro rfl
  rw [h] at hx
  cases hx

lemma Digits.isDigitLike (h : Digits cs ds) : ∀ c ∈ cs, isDigitLike c = true := fun c hc =>
  isDigitLike_of_digit? (exists_digits_iff.mp ⟨ds, h⟩ c hc)

namespace Integer

/-! ### Reading -/

lemma isMargin_of_isDigitLike (h : isDigitLike c = true) : isMargin c = false := by
  simp [isMargin, isBlank_of_isDigitLike h]

lemma sign_of_isDigitLike (h : isDigitLike c = true) : sign (c :: r) = (false, c :: r) := by
  have hminus := ne_of_isDigitLike h (x := '-') (by decide)
  have hplus := ne_of_isDigitLike h (x := '+') (by decide)
  simp [sign, hminus, hplus]

/-- The digits in front are taken, up to a sign that stands for one. -/
lemma digitRun_append (h : Digits w ds) (hr : ∀ c ∈ r, isDigitLike c = true)
    (hstop : ∀ c ∈ r.head?, digit? c = none) (done : List Nat) :
    digitRun false done (w ++ r) = some (done.reverse ++ ds, r) := by
  induction h generalizing done with
  | nil =>
    cases r with
    | nil => simp [digitRun]
    | cons c r =>
      have hc := ne_of_isDigitLike (hr c (by simp)) (x := '_') (by decide)
      simp [digitRun, hc, hstop c rfl]
  | @cons c d w ds hd _ ih =>
    have hc := ne_of_isDigitLike (isDigitLike_of_digit? (Option.isSome_of_eq_some hd)) (x := '_')
      (by decide)
    rw [List.cons_append, digitRun, if_neg hc, hd]
    simp [ih]

/-- **A text of digits, or of digits and signs for them**, is refused when too many digits are in
front, then when there is a sign, and else is read as the number that the digits write. -/
theorem read_append (hne : w ++ r ≠ []) (hw : Digits w ds) (hr : ∀ c ∈ r, isDigitLike c = true)
    (hstop : ∀ c ∈ r.head?, digit? c = none) :
    read (String.ofList (w ++ r)) =
      if maxDigits < w.length then .error (.tooLong w.length)
      else if r = [] then .ok (Nat.ofDigits 10 ds.reverse : Nat)
      else .error (.malformed (String.ofList (w ++ r))) := by
  have hall : ∀ c ∈ w ++ r, isDigitLike c = true := by
    intro c hc
    rcases List.mem_append.mp hc with hc | hc
    · exact hw.isDigitLike c hc
    · exact hr c hc
  obtain ⟨c, t, hct⟩ := List.exists_cons_of_ne_nil hne
  have hc : isDigitLike c = true := hall c (by simp [hct])
  have hmargin : (w ++ r).dropWhile isMargin = w ++ r := by simp [hct, isMargin_of_isDigitLike hc]
  have hsign : sign (w ++ r) = (false, w ++ r) := by rw [hct, sign_of_isDigitLike hc]
  simp only [read, String.toList_ofList, hmargin, hsign]
  cases hw with
  | nil =>
    obtain rfl : r = c :: t := hct
    simp [digitRun, ne_of_isDigitLike hc (x := '_') (by decide), hstop c rfl]
  | @cons d n w ds hd hds =>
    have hd' := isDigitLike_of_digit? (Option.isSome_of_eq_some hd)
    have hrun : digitRun true [] (d :: w ++ r) = digitRun false [] (d :: w ++ r) := by
      simp only [List.cons_append, digitRun, if_neg (ne_of_isDigitLike hd' (x := '_') (by decide)),
        hd]
    have hlen : (n :: ds).length = (d :: w).length := by
      simp [List.Forall₂.length_eq hds]
    simp only [hrun, digitRun_append (.cons hd hds) hr hstop [], List.reverse_nil, List.nil_append,
      hlen, gt_iff_lt]
    split
    · rfl
    · cases r with
      | nil => simp [signed, ofDigits_eq]
      | cons x r => simp [isMargin_of_isDigitLike (hr x (by simp))]

/-- A text of digits and signs for them that is refused: there is a sign, or too many digits are in
front of the first one, if there is one. -/
inductive Unreadable : List Char → Fault → Prop
  | sign {w r : List Char} {c : Char} (hw : ∀ d ∈ w, (digit? d).isSome) (hc : digit? c = none)
      (hr : ∀ d ∈ c :: r, isDigitLike d = true) (hlen : w.length ≤ maxDigits) :
      Unreadable (w ++ c :: r) (.malformed (String.ofList (w ++ c :: r)))
  | long {w r : List Char} (hw : ∀ d ∈ w, (digit? d).isSome)
      (hstop : ∀ c ∈ r.head?, digit? c = none)
      (hr : ∀ d ∈ r, isDigitLike d = true) (hlen : maxDigits < w.length) :
      Unreadable (w ++ r) (.tooLong w.length)

lemma Unreadable.ne_nil {f : Fault} (h : Unreadable cs f) : cs ≠ [] := by
  cases h with
  | sign => simp
  | long _ _ _ hlen =>
    intro he
    simp [(List.append_eq_nil_iff.mp he).1] at hlen

lemma Unreadable.read_eq {f : Fault} (h : Unreadable cs f) :
    read (String.ofList cs) = .error f := by
  cases h with
  | @sign w r c hw hc hr hlen =>
    obtain ⟨ds, hds⟩ := exists_digits_iff.mpr hw
    have hstop : ∀ x ∈ (c :: r).head?, digit? x = none := by simpa using hc
    rw [read_append (by simp) hds hr hstop, if_neg (by omega), if_neg (by simp)]
  | @long w r hw hstop hr hlen =>
    obtain ⟨ds, hds⟩ := exists_digits_iff.mpr hw
    have hne := (Unreadable.long hw hstop hr hlen).ne_nil
    rw [read_append hne hds hr hstop, if_pos hlen]

lemma Unreadable.isDigitLike {f : Fault} (h : Unreadable cs f) :
    ∀ c ∈ cs, isDigitLike c = true := by
  cases h with
  | sign hw _ hr | long hw _ hr =>
    intro c hc
    rcases List.mem_append.mp hc with hc | hc
    · exact isDigitLike_of_digit? (hw c hc)
    · exact hr c hc

/-- **A text of digits and signs for them** is a numeral that is read, or is refused. -/
theorem read_cases (hne : cs ≠ []) (h : ∀ c ∈ cs, isDigitLike c = true) :
    (∃ n : Nat, Denotes cs n ∧ read (String.ofList cs) = .ok n) ∨
      ∃ f, Unreadable cs f ∧ read (String.ofList cs) = .error f := by
  -- the digits in front, and what follows them
  generalize hw : cs.takeWhile (fun c => (digit? c).isSome) = w
  generalize hr : cs.dropWhile (fun c => (digit? c).isSome) = r
  have hcs : cs = w ++ r := by rw [← hw, ← hr, List.takeWhile_append_dropWhile]
  have hdigits : ∀ d ∈ w, (digit? d).isSome := by
    intro d hd
    rw [← hw] at hd
    simpa using List.all_eq_true.mp List.all_takeWhile d hd
  have hstop : ∀ c ∈ r.head?, digit? c = none := by
    intro c hc
    rw [← hr] at hc
    have := List.head?_dropWhile_not (fun c => (digit? c).isSome) cs
    rw [hc] at this
    simpa using this
  have hsigns : ∀ d ∈ r, isDigitLike d = true := fun d hd => h d (by simp [hcs, hd])
  obtain ⟨ds, hds⟩ := exists_digits_iff.mpr hdigits
  have hread := read_append (hcs ▸ hne) hds hsigns hstop
  rw [← hcs] at hread
  by_cases hlen : maxDigits < w.length
  · have hunreadable : Unreadable (w ++ r) (.tooLong w.length) := .long hdigits hstop hsigns hlen
    exact .inr ⟨_, hcs ▸ hunreadable, by rw [hread, if_pos hlen]⟩
  · cases r with
    | nil =>
      rw [List.append_nil] at hcs
      exact .inl ⟨_, ⟨hne, ds, hcs ▸ hds, rfl⟩, by rw [hread, if_neg hlen, if_pos rfl]⟩
    | cons c r =>
      have hunreadable : Unreadable (w ++ c :: r) (.malformed (String.ofList (w ++ c :: r))) :=
        .sign hdigits (hstop c rfl) hsigns (by omega)
      refine .inr ⟨_, hcs ▸ hunreadable, ?_⟩
      rw [hread, if_neg hlen, if_neg (by simp)]

end Integer

lemma Denotes.unique {m : Nat} (h : Denotes cs n) (h' : Denotes cs m) : n = m := by
  obtain ⟨-, ds, hds, rfl⟩ := h
  obtain ⟨-, ds', hds', rfl⟩ := h'
  rw [hds.unique hds']

lemma Denotes.isDigitLike (h : Denotes cs n) : ∀ c ∈ cs, isDigitLike c = true := by
  obtain ⟨-, ds, hds, -⟩ := h
  exact hds.isDigitLike

/-! ### Integers that can be written -/

namespace Integer

/-- The integers that can be written are those of no more than `maxDigits` digits. -/
lemma isWritable_iff {n : Int} :
    isWritable n = true ↔ n.natAbs < 10 ^ maxDigits := by
  rw [isWritable, decide_eq_true_iff]
  exact Nat.length_toDigits_le_iff (by omega) (by decide)

lemma isWritable_natCast_iff {n : Nat} :
    isWritable n = true ↔ n < 10 ^ maxDigits := isWritable_iff

lemma isWritable_of_le {m n : Nat} (h : m ≤ n) (hn : isWritable n = true) :
    isWritable m = true :=
  isWritable_natCast_iff.mpr (Nat.lt_of_le_of_lt h (isWritable_natCast_iff.mp hn))

/-- The least integer that cannot be written. -/
lemma isWritable_pow : isWritable (10 ^ maxDigits : Nat) = false := by
  rw [Bool.eq_false_iff, ne_eq, isWritable_natCast_iff]
  exact Nat.lt_irrefl _

lemma lt_of_digit? {d : Nat} (h : digit? c = some d) : d < 10 := by
  obtain ⟨z, hz, rfl⟩ := Option.map_eq_some_iff.mp h
  have hrange := List.find?_some hz
  simp only [Bool.and_eq_true, decide_eq_true_eq] at hrange
  omega

lemma lt_of_mem_digitRun {gap : Bool} {ds es : List Nat} {rest : List Char}
    (h : digitRun gap ds cs = some (es, rest)) (hds : ∀ d ∈ ds, d < 10) : ∀ d ∈ es, d < 10 := by
  fun_induction digitRun gap ds cs with
  | case1 | case3 | case6 => cases h
  | case2 | case7 =>
    cases h
    simpa using hds
  | case4 gap ds r _ ih => exact ih h hds
  | case5 gap ds c r _ d hd ih =>
    exact ih h (List.forall_mem_cons.mpr ⟨lt_of_digit? hd, hds⟩)

/-- An integer that has been read can be written. -/
lemma isWritable_of_read {s : String} {n : Int} (h : read s = .ok n) : isWritable n = true := by
  unfold read at h
  generalize sign _ = signed? at h
  obtain ⟨negative, body⟩ := signed?
  dsimp only at h
  split at h
  · cases h
  · rename_i ds rest hrun
    split at h
    · cases h
    · split at h
      · cases h
        have hlt : ofDigits ds < 10 ^ ds.length := by
          rw [ofDigits_eq, ← List.length_reverse]
          refine Nat.ofDigits_lt_base_pow_length (by omega) fun d hd => ?_
          exact lt_of_mem_digitRun hrun (by simp) d (List.mem_reverse.mp hd)
        have habs : (signed negative (ofDigits ds)).natAbs = ofDigits ds := by
          unfold signed
          split <;> simp
        rw [isWritable_iff, habs]
        exact Nat.lt_of_lt_of_le hlt (Nat.pow_le_pow_right (by omega) (by omega))
      · cases h

end Integer

end Trazo.Text
