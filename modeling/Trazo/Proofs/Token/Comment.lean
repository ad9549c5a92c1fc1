import Mathlib.Tactic.Lemma
import Trazo.Token.Lexer

/-!
The grammar of comments, and the scanner that passes them.

A comment opens with `/*` and ends with `*/`. In between stand comments, and characters at which
neither sign starts. The scanner counts how many comments are open; with `depth` more of them around
it, it passes the rest of the innermost one and goes on in the next.
-/

namespace Trazo.Lexer

/-- What follows the opening sign of a comment, up to and with its closing sign. -/
inductive Body : List Char → Prop
  | close : Body ['*', '/']
  | plain {c : Char} {r : List Char} (ho : ¬ ['/', '*'] <+: c :: r) (hc : ¬ ['*', '/'] <+: c :: r)
      (hr : Body r) : Body (c :: r)
  | comment {s r : List Char} (hs : Body s) (hr : Body r) : Body ('/' :: '*' :: (s ++ r))

variable {s cs rest : List Char} {c : Char} {depth n m : Nat}

lemma Body.ne_nil (h : Body s) : s ≠ [] := by
  cases h <;> simp

/-- A sign does not start later because the text goes on. -/
lemma not_prefix_append {a b : Char} (hs : s ≠ []) (h : ¬ [a, b] <+: c :: s) :
    ¬ [a, b] <+: c :: (s ++ rest) := by
  obtain ⟨d, t, rfl⟩ := List.exists_cons_of_ne_nil hs
  simpa [List.cons_prefix_cons] using h

lemma commentLength_plain (ho : ¬ ['/', '*'] <+: c :: cs) (hc : ¬ ['*', '/'] <+: c :: cs) :
    commentLength depth n (c :: cs) = commentLength depth (n + 1) cs := by
  rw [commentLength.eq_def]
  split
  · rename_i r he
    obtain ⟨rfl, rfl⟩ := List.cons.inj he
    exact absurd (by simp [List.cons_prefix_cons]) ho
  · rename_i r he
    obtain ⟨rfl, rfl⟩ := List.cons.inj he
    exact absurd (by simp [List.cons_prefix_cons]) hc
  · rename_i he
    obtain ⟨rfl, rfl⟩ := List.cons.inj he
    rfl
  · rename_i he
    cases he

/-- What is left to do when the innermost comment has ended. -/
def resume (depth n : Nat) (rest : List Char) : Option Nat :=
  match depth with
  | 0 => some n
  | d + 1 => commentLength d n rest

/-- The scanner passes the rest of a comment, and goes on behind it. -/
lemma commentLength_append (h : Body s) (depth n : Nat) (rest : List Char) :
    commentLength depth n (s ++ rest) = resume depth (n + s.length) rest := by
  induction h generalizing depth n rest with
  | close => rfl
  | @plain c r ho hc hr ih =>
    rw [List.cons_append, commentLength_plain (not_prefix_append hr.ne_nil ho)
      (not_prefix_append hr.ne_nil hc), ih, List.length_cons]
    congr 1
    omega
  | @comment s r hs hr ihs ihr =>
    have hlen : n + ('/' :: '*' :: (s ++ r)).length = n + 2 + s.length + r.length := by
      simp only [List.length_cons, List.length_append]
      omega
    calc commentLength depth n ('/' :: '*' :: (s ++ r) ++ rest)
        = commentLength (depth + 1) (n + 2) (s ++ (r ++ rest)) := by
          simp [commentLength]
      _ = commentLength depth (n + 2 + s.length) (r ++ rest) := ihs _ _ _
      _ = resume depth (n + ('/' :: '*' :: (s ++ r)).length) rest := by
          rw [ihr, hlen]

/-- Where the scanner comes through, it has passed the rest of a comment first. -/
lemma exists_body_of_commentLength (h : commentLength depth n cs = some m) :
    ∃ s rest, cs = s ++ rest ∧ Body s ∧ resume depth (n + s.length) rest = some m := by
  -- the rest of an outer comment is shorter than what follows the inner one's opening sign
  induction hlen : cs.length using Nat.strongRecOn generalizing depth n cs with
  | ind len ih =>
    subst hlen
    cases cs with
    | nil => simp [commentLength] at h
    | cons c r =>
      by_cases ho : ['/', '*'] <+: c :: r
      · obtain ⟨r, he⟩ := ho
        rw [← he] at h ih ⊢
        have hr : r.length < (['/', '*'] ++ r).length := by
          rw [List.length_append, List.length_cons]
          omega
        obtain ⟨s, t, rfl, hs, ht⟩ := ih r.length hr (n := n + 2) h rfl
        have ht' : t.length < (['/', '*'] ++ (s ++ t)).length := by
          rw [List.length_append] at hr
          omega
        obtain ⟨u, v, rfl, hu, hv⟩ := ih t.length ht' (n := n + 2 + s.length) ht rfl
        refine ⟨'/' :: '*' :: (s ++ u), v, by simp, .comment hs hu, ?_⟩
        rw [← hv]
        congr 1
        simp only [List.length_cons, List.length_append]
        omega
      by_cases hc : ['*', '/'] <+: c :: r
      · obtain ⟨r, he⟩ := hc
        rw [← he] at h ⊢
        exact ⟨['*', '/'], r, rfl, .close, h⟩
      · rw [commentLength_plain ho hc] at h
        obtain ⟨s, t, rfl, hs, ht⟩ := ih r.length (by simp) h rfl
        have hpre : c :: s <+: c :: (s ++ t) := by simp
        refine ⟨c :: s, t, rfl, .plain ?_ ?_ hs, ?_⟩
        · exact fun h => ho (h.trans hpre)
        · exact fun h => hc (h.trans hpre)
        · rw [← ht, List.length_cons]
          congr 1
          omega

/-- The scanner finds the rest of the comment that the text starts with. -/
theorem commentLength_eq_some_iff :
    commentLength 0 0 cs = some n ↔ ∃ s rest, cs = s ++ rest ∧ Body s ∧ s.length = n := by
  constructor
  · intro h
    obtain ⟨s, rest, rfl, hs, hn⟩ := exists_body_of_commentLength h
    exact ⟨s, rest, rfl, hs, by simpa [resume] using hn⟩
  · rintro ⟨s, rest, rfl, hs, rfl⟩
    simp [commentLength_append hs, resume]

theorem commentLength_eq_none_iff :
    commentLength 0 0 cs = none ↔ ∀ s rest, cs = s ++ rest → ¬ Body s := by
  rw [Option.eq_none_iff_forall_ne_some]
  constructor
  · intro h s rest he hs
    exact h _ (commentLength_eq_some_iff.mpr ⟨s, rest, he, hs, rfl⟩)
  · intro h n hn
    obtain ⟨s, rest, he, hs, -⟩ := commentLength_eq_some_iff.mp hn
    exact h s rest he hs

end Trazo.Lexer
