import Trazo.Proofs.Text.Numeral
import Trazo.Proofs.Token.Lexeme

/-!
Number literals, and what is made a number on the way.

A literal is within the limit if its value is, whatever the zeros in front of it. Its digits are
counted before they are made a number, so no numeral that is longer than the limit is ever made one.
To say so, reading is stated over a conversion that may fail: how it fails on longer numerals makes
no difference to what is read.

Counting goes by the digits of the limit. A limit that has too many of them to be written leaves no
literal at all within it.
-/

namespace Trazo.Lexer

variable {ε : Type} {limit : Nat} {ds rest : List Char} {c : Cursor}

/-- The number that ASCII digits write in base ten, the last digit counting ones. -/
def decimal (ds : List Char) : Nat :=
  Nat.ofDigits 10 (ds.reverse.map fun d => d.toNat - '0'.toNat)

lemma value_eq_decimal (ds : List Char) : value ds = decimal ds := by
  rw [value, Text.ofDigits_eq, decimal, List.map_reverse]

/-- The digits of a literal that count: those from the first that is no zero, or a single zero. -/
def significant (ds : List Char) : List Char :=
  match ds.dropWhile (· = '0') with
  | [] => ['0']
  | s => s

/-- Reading a number with a conversion that may fail. The digits that count are converted to compare
them with the limit, unless there are more of them than the limit has, and again for the token. -/
def readNumberBy (convert : List Char → Except ε Nat) (limit : Nat) (c : Cursor) :
    Except ε (Except LexFault Token × Cursor) := do
  let ds := digits c.rest
  let after := c.forward ds.length
  if !Text.Integer.isWritable limit then pure (.error (fault c .unwritableLimit), after)
  else do
    let large ←
      if (Nat.toDigits 10 limit).length < (ds.dropWhile (· = '0')).length then pure true
      else do
        let n ← convert (significant ds)
        pure (decide (limit < n))
    if large then pure (.error (fault c (.numberTooLarge ds limit)), after)
    else do
      let n ← convert (significant ds)
      pure (.ok (token c .number (.number n)), after)

/-- The conversion gives the numbers that numerals of at most `width` digits write. -/
def ConvertsWithin (convert : List Char → Except ε Nat) (width : Nat) : Prop :=
  ∀ s, s ≠ [] → (∀ d ∈ s, isDigit d = true) → s.length ≤ width → convert s = .ok (decimal s)

lemma significant_ne_nil (ds : List Char) : significant ds ≠ [] := by
  unfold significant
  split
  · simp
  · assumption

lemma isDigit_significant (hds : ∀ d ∈ ds, isDigit d = true) :
    ∀ d ∈ significant ds, isDigit d = true := by
  unfold significant
  split
  · simp [isDigit]
  · exact fun d hd => hds d ((List.dropWhile_sublist _).subset hd)

lemma length_significant_le {width : Nat} (hwidth : 0 < width)
    (h : (ds.dropWhile (· = '0')).length ≤ width) : (significant ds).length ≤ width := by
  unfold significant
  split
  · exact hwidth
  · exact h

/-- Zeros in front of a numeral do not count. -/
lemma decimal_significant (ds : List Char) : decimal (significant ds) = decimal ds := by
  have hzeros := value_dropWhile ds
  rw [← value_eq_decimal, ← value_eq_decimal, ← hzeros]
  unfold significant
  split
  · rename_i he
    rw [he]
    rfl
  · rfl

lemma readNumber_of_digits (hl : Text.Integer.isWritable limit = true) (hds : digits c.rest = ds)
    (hd : ∀ d ∈ ds, isDigit d = true) :
    readNumber limit c =
      (if limit < decimal ds then .error (fault c (.numberTooLarge ds limit))
        else .ok (token c .number (.number (decimal ds))), c.forward ds.length) := by
  subst hds
  unfold readNumber
  simp only [hl, Bool.not_true, Bool.false_eq_true, if_false, exceeds_eq hd, decide_eq_true_eq,
    value_dropWhile]
  rw [value_eq_decimal]
  split <;> rfl

lemma readNumber_of_not_isWritable (hl : Text.Integer.isWritable limit = false) (c : Cursor) :
    readNumber limit c =
      (.error (fault c .unwritableLimit), c.forward (digits c.rest).length) := by
  simp only [readNumber, hl, Bool.not_false, if_true]

/-- More digits than the limit has, zeros in front apart, make a number beyond it. -/
lemma lt_decimal_of_length_lt (hd : ∀ d ∈ ds, isDigit d = true)
    (h : (Nat.toDigits 10 limit).length < (ds.dropWhile (· = '0')).length) :
    limit < decimal ds := by
  have hexceeds : exceeds limit ds = true := by
    unfold exceeds
    simp [h]
  rw [exceeds_eq hd, value_eq_decimal] at hexceeds
  exact of_decide_eq_true hexceeds

/-- **Conversions** of numerals that are longer than the limit are never made. -/
lemma readNumberBy_eq {convert : List Char → Except ε Nat}
    (h : ConvertsWithin convert (Nat.toDigits 10 limit).length) (c : Cursor) :
    readNumberBy convert limit c = .ok (readNumber limit c) := by
  have hd : ∀ d ∈ digits c.rest, isDigit d = true := fun d hd => List.mem_takeWhile_imp hd
  cases hl : Text.Integer.isWritable limit with
  | false =>
    rw [readNumber_of_not_isWritable hl]
    simp only [readNumberBy, hl, Bool.not_false, if_true]
    rfl
  | true =>
    rw [readNumber_of_digits hl rfl hd]
    simp only [readNumberBy, hl, Bool.not_true, Bool.false_eq_true, if_false]
    by_cases hlong : (Nat.toDigits 10 limit).length <
        ((digits c.rest).dropWhile (· = '0')).length
    · have hlarge := lt_decimal_of_length_lt hd hlong
      simp only [if_pos hlong, if_pos hlarge]
      rfl
    · have hwidth : (significant (digits c.rest)).length ≤ (Nat.toDigits 10 limit).length :=
        length_significant_le Nat.length_toDigits_pos (Nat.le_of_not_lt hlong)
      have hconvert : convert (significant (digits c.rest)) = .ok (decimal (digits c.rest)) := by
        rw [h _ (significant_ne_nil _) (isDigit_significant hd) hwidth, decimal_significant]
      simp only [if_neg hlong, hconvert]
      by_cases hlarge : limit < decimal (digits c.rest)
      · simp [hlarge, bind, Except.bind, pure, Except.pure]
      · simp [hlarge, bind, Except.bind, pure, Except.pure]

/-- **Number literals**: a run of digits is read whole. It is the number that all its digits write
if that is within the limit, and too large otherwise, at the place of the first digit. A conversion
that fails on every numeral with more digits than the limit does not fail on the way. Under a limit
that cannot be written every run of digits fails for that, and none is converted. -/
theorem readNumber_limit_on_value (limit : Nat) (hc : c.rest = ds ++ rest)
    (hd : ∀ d ∈ ds, isDigit d = true) (hr : Stops isDigit rest) :
    (limit < 10 ^ Text.Integer.maxDigits →
      (decimal ds ≤ limit →
        (readNumber limit c).1 = .ok ⟨.number, .number (decimal ds), c.line, c.column⟩) ∧
      (limit < decimal ds → ∃ f, (readNumber limit c).1 = .error f ∧
        f.cause.message = "Number too large (" ++ LexCause.shown ds ++ ")" ∧
        f.line = c.line ∧ f.column = c.column)) ∧
      (10 ^ Text.Integer.maxDigits ≤ limit →
        (readNumber limit c).1 = .error (fault c .unwritableLimit) ∧
          ∀ (ε : Type) (convert : List Char → Except ε Nat),
            readNumberBy convert limit c = .ok (readNumber limit c)) ∧
      (readNumber limit c).2 = c.forward ds.length ∧
      ∀ (ε : Type) (convert : List Char → Except ε Nat),
        ConvertsWithin convert (Nat.toDigits 10 limit).length →
          readNumberBy convert limit c = .ok (readNumber limit c) := by
  have hdigits : digits c.rest = ds := by rw [digits, hc, takeWhile_append_of_stops hd hr]
  refine ⟨fun hl => ?_, fun hl => ?_, ?_, fun ε convert h => readNumberBy_eq h c⟩
  · have hread := readNumber_of_digits (Text.Integer.isWritable_natCast_iff.mpr hl) hdigits hd
    refine ⟨fun hle => ?_, fun hlt => ?_⟩
    · rw [hread, if_neg (Nat.not_lt.mpr hle)]
      rfl
    · rw [hread, if_pos hlt]
      exact ⟨_, rfl, rfl, rfl, rfl⟩
  · have hno : Text.Integer.isWritable limit = false := by
      rwa [Bool.eq_false_iff, ne_eq, Text.Integer.isWritable_natCast_iff, Nat.not_lt]
    rw [readNumber_of_not_isWritable hno]
    refine ⟨rfl, fun ε convert => ?_⟩
    simp only [readNumberBy, hno, Bool.not_false, if_true]
    rfl
  · cases hl : Text.Integer.isWritable limit with
    | false => rw [readNumber_of_not_isWritable hl, hdigits]
    | true => rw [readNumber_of_digits hl hdigits hd]

/-- A literal with three zeros in front, and a conversion that refuses more than two digits. -/
theorem readNumber_limit_on_value_zeros :
    let c := Cursor.start ['0', '0', '0', '9', '9', '\x7b']
    let ds := ['0', '0', '0', '9', '9']
    let convert : List Char → Except (List Char) Nat :=
      fun s => if s.length ≤ 2 then .ok (decimal s) else .error s
    (c.rest = ds ++ ['\x7b'] ∧ (∀ d ∈ ds, isDigit d = true) ∧ Stops isDigit ['\x7b']) ∧
      (decimal ds ≤ 99 ∧ (readNumber 99 c).1 = .ok ⟨.number, .number 99, 1, 1⟩) ∧
      (98 < decimal ds ∧ ∃ f, (readNumber 98 c).1 = .error f ∧
        f.cause.message = "Number too large (00099)" ∧ f.line = 1 ∧ f.column = 1) ∧
      ConvertsWithin convert (Nat.toDigits 10 99).length ∧
        readNumberBy convert 99 c = .ok (readNumber 99 c) := by
  intro c ds convert
  have hc : c.rest = ds ++ ['\x7b'] := rfl
  have hd : ∀ d ∈ ds, isDigit d = true := List.all_eq_true.mp rfl
  have hr : Stops isDigit ['\x7b'] := stops_cons (by decide)
  have hconvert : ConvertsWithin convert (Nat.toDigits 10 99).length :=
    fun s _ _ hs => if_pos hs
  have hle : decimal ds ≤ 99 := by decide
  have hlt : 98 < decimal ds := by decide
  have hhundred : 10 ^ 2 ≤ 10 ^ Text.Integer.maxDigits :=
    Nat.pow_le_pow_right (by omega) (by decide)
  obtain ⟨hwithin, -, -, hby⟩ := readNumber_limit_on_value 99 hc hd hr
  obtain ⟨hbeyond, -⟩ := readNumber_limit_on_value 98 hc hd hr
  refine ⟨⟨hc, hd, hr⟩, ⟨hle, (hwithin ?_).1 hle⟩, ⟨hlt, (hbeyond ?_).2 hlt⟩, hconvert,
    hby _ convert hconvert⟩
  · exact Nat.lt_of_lt_of_le (by decide) hhundred
  · exact Nat.lt_of_lt_of_le (by decide) hhundred

/-- **No literal is within a limit of too many digits**, not even the least. -/
theorem readNumber_of_unwritable_limit :
    let limit := 10 ^ Text.Integer.maxDigits
    let c := Cursor.start ['0']
    decimal ['0'] ≤ limit ∧ (readNumber limit c).1 = .error ⟨.unwritableLimit, 1, 1⟩ := by
  intro limit c
  refine ⟨Nat.zero_le _, ?_⟩
  rw [readNumber_of_not_isWritable Text.Integer.isWritable_pow]
  rfl

end Trazo.Lexer
