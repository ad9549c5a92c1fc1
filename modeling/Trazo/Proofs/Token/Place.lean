import Mathlib.Data.List.TakeWhile
import Mathlib.Tactic.Lemma
import Trazo.Token.Cursor

/-!
Places in a text: the line and the column behind a part of it, and the cursor that stands there.

However a cursor moves forward, it is the cursor behind what it has passed.
-/

namespace Trazo

/-- The line behind a text: one more than its line ends. -/
def lineBehind (text : List Char) : Nat := 1 + text.count '\n'

/-- The column behind a text: one more than the characters after its last line end. -/
def columnBehind (text : List Char) : Nat := 1 + (text.reverse.takeWhile (· ≠ '\n')).length

/-- The line behind a longer text counts on from the line behind its start. -/
lemma lineBehind_append (text s : List Char) :
    lineBehind (text ++ s) = lineBehind text + s.count '\n' := by
  rw [lineBehind, lineBehind, List.count_append, Nat.add_assoc]

/-- The column counts on from the start of the text only as long as the line is the same. -/
lemma columnBehind_append (text s : List Char) :
    columnBehind (text ++ s) =
      if '\n' ∈ s then columnBehind s else columnBehind text + s.length := by
  unfold columnBehind
  rw [List.reverse_append, List.takeWhile_append]
  by_cases hs : '\n' ∈ s
  · have hlen : (s.reverse.takeWhile (· ≠ '\n')).length ≠ s.reverse.length := by
      intro he
      have hall := List.takeWhile_eq_self_iff.mp ((List.takeWhile_prefix _).eq_of_length he)
      simpa using hall '\n' (List.mem_reverse.mpr hs)
    rw [if_neg hlen, if_pos hs]
  · have hall : s.reverse.takeWhile (· ≠ '\n') = s.reverse := by
      refine List.takeWhile_eq_self_iff.mpr fun c hc => ?_
      simp only [ne_eq, decide_eq_true_eq]
      rintro rfl
      exact hs (List.mem_reverse.mp hc)
    rw [hall, if_pos rfl, if_neg hs, List.length_append, List.length_reverse]
    omega

namespace Cursor

/-- The cursor between a text and the rest of the source. -/
def behind (text rest : List Char) : Cursor :=
  ⟨text.reverse, rest, lineBehind text, columnBehind text⟩

variable {text rest : List Char} {c : Char}

lemma start_eq_behind (source : List Char) : start source = behind [] source := rfl

@[simp]
lemma rest_behind : (behind text rest).rest = rest := rfl

lemma next_behind : (behind text (c :: rest)).next = behind (text ++ [c]) rest := by
  unfold next behind
  by_cases hc : c = '\n'
  · simp [hc, lineBehind, columnBehind, Nat.add_assoc]
  · simp [hc, lineBehind, columnBehind, Nat.add_comm]

/-- **Forward**: passing a text puts the cursor behind it. -/
lemma forward_behind (text s rest : List Char) :
    forward s.length (behind text (s ++ rest)) = behind (text ++ s) rest := by
  induction s generalizing text with
  | nil => simp [forward]
  | cons c s ih =>
    rw [List.length_cons, forward, List.cons_append, next_behind, ih, List.append_assoc]
    rfl

end Cursor

end Trazo
