import Trazo.Proofs.Text.Numeral
import Trazo.Proofs.Token.Spelling

/-!
The line of a diagnostic, read back from its text.

The text starts with the word and the number of the line, and a colon follows. So the digits that
are found there are those of the number, and they are read as it, unless they are more than can be
read.
-/

namespace Trazo

open Lexer (isDigit value toList_toString value_toDigits isDigit_of_mem_toDigits)

variable {ds : List Char}

/-! ### Numerals -/

namespace Text

/-- The digits of the first script are worth what they say. -/
lemma digit?_of_isDigit {c : Char} (h : isDigit c = true) :
    digit? c = some (c.toNat - '0'.toNat) := by
  obtain ⟨hlow, hhigh⟩ := Lexer.isDigit_iff.mp h
  have h0 : '0'.toNat = 48 := rfl
  have h9 : '9'.toNat = 57 := rfl
  have hfirst : (48 ≤ c.toNat && c.toNat ≤ 57) = true := by
    simp only [Bool.and_eq_true, decide_eq_true_eq]
    omega
  simp [digit?, zeros, hfirst]

namespace Integer

/-- **Digits**, if they are not too many, are read as the number that they write. -/
theorem read_of_digits (hne : ds ≠ []) (h : ∀ d ∈ ds, isDigit d = true)
    (hlen : ds.length ≤ maxDigits) : read (String.ofList ds) = .ok (value ds : Nat) := by
  have hdigits : Digits ds (ds.map fun c => c.toNat - '0'.toNat) := by
    rw [Digits, List.forall₂_map_right_iff, List.forall₂_same]
    exact fun c hc => digit?_of_isDigit (h c hc)
  have hread := read_append (r := []) (by simpa using hne) hdigits (by simp) (by simp)
  rw [List.append_nil, if_neg (by omega), if_pos rfl, ← ofDigits_eq] at hread
  exact hread

end Integer

end Text

/-! ### Lines -/

namespace Diagnostic

variable {d : Diagnostic} {n : Nat}

lemma toList_headline (h : d.line = some (n : Int)) :
    d.headline.toList =
      "Line ".toList ++ (Nat.toDigits 10 n ++ ':' :: ' ' :: d.message.toList) := by
  have hn : (toString (n : Int)).toList = Nat.toDigits 10 n := toList_toString n
  simp only [headline, h, String.toList_append, hn, List.append_assoc]
  rfl

/-- The text starts with the line, and then a colon. -/
lemma exists_toList_render (h : d.line = some (n : Int)) :
    ∃ rest, d.render.toList = "Line ".toList ++ (Nat.toDigits 10 n ++ ':' :: rest) := by
  unfold render
  cases d.details ++ d.hintLines with
  | nil => exact ⟨_, toList_headline h⟩
  | cons l ls =>
    rw [String.intercalate_cons_cons, String.toList_append, String.toList_append, toList_headline h]
    simp only [List.append_assoc, List.cons_append]
    exact ⟨_, rfl⟩

/-- **The line is read back**, if its number has no more digits than can be read. -/
theorem lineOf_render (h : d.line = some (n : Int)) (hn : n < 10 ^ Text.Integer.maxDigits) :
    lineOf d.render = .ok (some (n : Int)) := by
  obtain ⟨rest, hrest⟩ := exists_toList_render h
  have hdigits : ∀ c ∈ Nat.toDigits 10 n, isDigit c = true := fun c => isDigit_of_mem_toDigits
  have hrun : (Nat.toDigits 10 n ++ ':' :: rest).takeWhile (fun c => (Text.digit? c).isSome) =
      Nat.toDigits 10 n := by
    refine Lexer.takeWhile_append_of_stops (fun c hc => ?_) (Lexer.stops_cons (by decide))
    rw [Text.digit?_of_isDigit (hdigits c hc), Option.isSome_some]
  have hlen : (Nat.toDigits 10 n).length ≤ Text.Integer.maxDigits :=
    (Nat.length_toDigits_le_iff (by decide) (by decide)).mpr hn
  have hread := Text.Integer.read_of_digits Nat.toDigits_ne_nil hdigits hlen
  rw [value_toDigits] at hread
  have hmark : "Line ".toList.isPrefixOf ("Line ".toList ++ (Nat.toDigits 10 n ++ ':' :: rest)) :=
    List.isPrefixOf_iff_prefix.mpr (List.prefix_append _ _)
  obtain ⟨c, cs, hcs⟩ := List.exists_cons_of_ne_nil (Nat.toDigits_ne_nil (b := 10) (n := n))
  simp only [lineOf, hrest, if_pos hmark, List.drop_left, hrun]
  rw [hcs] at hread ⊢
  simp only [hread]
  rfl

end Diagnostic

end Trazo
