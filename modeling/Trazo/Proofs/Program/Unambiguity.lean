import Trazo.Proofs.Program.Completeness

/-!
The grammar of programs is unambiguous.

Two phrases that are written at the start of the same tokens are the same. Only a condition may end
in two places, before its else block and after it; inside a block, what follows tells which.
-/

namespace Trazo.Program

open Parse

variable {ts us vs xs : List Token} {b c : Block}

/-- What is written at the start of the same tokens is the same. Of two statements, one may be the
other without its else block. -/
def Unambiguous (ts : List Token) : Phrase → Prop
  | .statement s => ∀ {us xs ys : List Token} {s' : Statement}, Writes us (.statement s') →
      ts ++ xs = us ++ ys →
      (ts = us ∧ s = s') ∨
        (∃ e ns, us = ts ++ e :: ns ∧ e.kind = .keyword .sino) ∨
        ∃ e ns, ts = us ++ e :: ns ∧ e.kind = .keyword .sino ∧ s'.nesting ≤ s.nesting
  | .statements b => ∀ {us xs ys : List Token} {c : Block} {l r : Token},
      Writes us (.statements c) → l.kind = .closeBrace → r.kind = .closeBrace →
      ts ++ l :: xs = us ++ r :: ys → ts = us ∧ b = c
  | .block b => ∀ {us xs ys : List Token} {c : Block}, Writes us (.block c) →
      ts ++ xs = us ++ ys → ts = us ∧ b = c
  | .item i => ∀ {us xs ys : List Token} {j : Item}, Writes us (.item j) →
      ts ++ xs = us ++ ys → ts = us ∧ i = j

lemma noElse_of_closeBrace {r : Token} (hb : Writes us (.statements b))
    (hr : r.kind = .closeBrace) : NoElse (us ++ r :: xs) := by
  refine noElse_of_writes_statements hb fun t ht => ?_
  obtain rfl : r = t := by simpa using ht
  simp [hr]

lemma unambiguous_cons {s : Statement} (hs : Writes ts (.statement s))
    (hb : Writes us (.statements b)) (ih : Unambiguous ts (.statement s))
    (ih' : Unambiguous us (.statements b)) : Unambiguous (ts ++ us) (.statements (s :: b)) := by
  intro vs xs ys c l r hc hl hr h
  rw [List.append_assoc] at h
  cases hc with
  | nil =>
    obtain ⟨t, u, rfl, hclose, -, -⟩ := head_of_writes_statement hs
    simp only [List.nil_append, List.cons_append, List.cons.injEq] at h
    exact absurd (h.1 ▸ hr) hclose
  | @cons vs₁ vs₂ s' c hs' hc =>
    rw [List.append_assoc] at h
    -- neither statement is followed by `sino`
    rcases ih hs' h with ⟨rfl, rfl⟩ | ⟨e, ns, rfl, he⟩ | ⟨e, ns, rfl, he, -⟩
    · obtain ⟨rfl, rfl⟩ := ih' hc hl hr (List.append_cancel_left h)
      exact ⟨rfl, rfl⟩
    · rw [List.append_assoc] at h
      have hno : NoElse (us ++ l :: xs) := noElse_of_closeBrace hb hl
      rw [List.append_cancel_left h] at hno
      exact absurd he (hno e rfl)
    · rw [List.append_assoc] at h
      have hno : NoElse (vs₂ ++ r :: ys) := noElse_of_closeBrace hc hr
      rw [← List.append_cancel_left h] at hno
      exact absurd he (hno e rfl)

/-- **The grammar is unambiguous**, but for the end of a condition. The induction is on how the
tokens write the phrase. -/
theorem unambiguous_of_writes {f : Phrase} (h : Writes ts f) : Unambiguous ts f := by
  induction h with
  | command ht =>
    intro us xs ys s' hs' h
    cases hs' <;> simp_all
  | call ht hn hl hr =>
    intro us xs ys s' hs' h
    cases hs' <;> simp_all
  | loop ht hn hc hv hb ih =>
    intro us xs ys s' hs' h
    cases hs' with
    | loop ht' hn' hc' hv' hb' =>
      simp only [List.cons_append, List.cons.injEq] at h
      obtain ⟨rfl, rfl, rfl, h⟩ := h
      obtain ⟨rfl, rfl⟩ := ih hb' h
      simp_all
    | _ => simp_all
  | branch ht hl hq hr hb ih =>
    intro us xs ys s' hs' h
    cases hs' with
    | branch ht' hl' hq' hr' hb' =>
      simp only [List.cons_append, List.cons.injEq] at h
      obtain ⟨rfl, rfl, rfl, rfl, h⟩ := h
      obtain ⟨rfl, rfl⟩ := ih hb' h
      simp_all
    | branchElse ht' hl' hq' hr' hb' he' hc' =>
      simp only [List.cons_append, List.cons.injEq, List.append_assoc] at h
      obtain ⟨rfl, rfl, rfl, rfl, h⟩ := h
      obtain ⟨rfl, rfl⟩ := ih hb' h
      exact .inr (.inl ⟨_, _, rfl, he'⟩)
    | _ => simp_all
  | branchElse ht hl hq hr hb he hc ih ih' =>
    intro us xs ys s' hs' h
    cases hs' with
    | branch ht' hl' hq' hr' hb' =>
      simp only [List.cons_append, List.cons.injEq, List.append_assoc] at h
      obtain ⟨rfl, rfl, rfl, rfl, h⟩ := h
      obtain ⟨rfl, rfl⟩ := ih hb' h
      refine .inr (.inr ⟨_, _, rfl, he, ?_⟩)
      simp only [Statement.nesting]
      omega
    | branchElse ht' hl' hq' hr' hb' he' hc' =>
      simp only [List.cons_append, List.cons.injEq, List.append_assoc] at h
      obtain ⟨rfl, rfl, rfl, rfl, h⟩ := h
      obtain ⟨rfl, rfl⟩ := ih hb' h
      obtain ⟨rfl, hrest⟩ := List.cons.inj (List.append_cancel_left h)
      obtain ⟨rfl, rfl⟩ := ih' hc' hrest
      simp_all
    | _ => simp_all
  | nil =>
    intro us xs ys c l r hc hl hr h
    cases hc with
    | nil => exact ⟨rfl, rfl⟩
    | cons hs _ =>
      obtain ⟨t, u, rfl, hclose, -, -⟩ := head_of_writes_statement hs
      simp only [List.nil_append, List.cons_append, List.cons.injEq] at h
      exact absurd (h.1 ▸ hl) hclose
  | cons hs hb ih ih' => exact unambiguous_cons hs hb ih ih'
  | block hl hb hr ih =>
    intro us xs ys c hc h
    cases hc with
    | block hl' hb' hr' =>
      simp only [List.cons_append, List.cons.injEq, List.append_assoc, List.nil_append] at h
      obtain ⟨rfl, h⟩ := h
      obtain ⟨rfl, rfl⟩ := ih hb' hr hr' h
      obtain ⟨rfl, -⟩ := List.cons.inj (List.append_cancel_left h)
      exact ⟨rfl, rfl⟩
  | main ht _ ih =>
    intro us xs ys j hj h
    cases hj with
    | main ht' hb' =>
      simp only [List.cons_append, List.cons.injEq] at h
      obtain ⟨rfl, h⟩ := h
      obtain ⟨rfl, rfl⟩ := ih hb' h
      exact ⟨rfl, rfl⟩
    | procedure => simp_all
  | procedure ht hn hc hl hr _ ih =>
    intro us xs ys j hj h
    cases hj with
    | main => simp_all
    | procedure ht' hn' hc' hl' hr' hb' =>
      simp only [List.cons_append, List.cons.injEq] at h
      obtain ⟨rfl, rfl, rfl, rfl, h⟩ := h
      obtain ⟨rfl, rfl⟩ := ih hb' h
      obtain rfl : _ = _ := Token.Content.text.inj (hc.symm.trans hc')
      exact ⟨rfl, rfl⟩

lemma append_ne_nil_of_writes_item {i : Item} (h : Writes ts (.item i)) (us : List Token) :
    ts ++ us ≠ [] := by
  have hpos := length_pos_of_writes_item h
  exact List.append_ne_nil_of_left_ne_nil (List.length_pos_iff.mp hpos) us

lemma WritesItems.unique {is js : List Item} (h : WritesItems ts is) (h' : WritesItems ts js) :
    is = js := by
  induction h generalizing js with
  | nil =>
    generalize hnil : ([] : List Token) = vs at h'
    cases h' with
    | nil => rfl
    | cons hj _ => exact absurd hnil.symm (append_ne_nil_of_writes_item hj _)
  | @cons ts us i is hi his ih =>
    generalize hvs : ts ++ us = vs at h'
    cases h' with
    | nil => exact absurd hvs (append_ne_nil_of_writes_item hi _)
    | cons hj hjs =>
      obtain ⟨rfl, rfl⟩ := unambiguous_of_writes hi hj hvs
      obtain rfl := List.append_cancel_left hvs
      rw [ih hjs]

/-- **Whole programs**: tokens write one program at most. -/
theorem Written.unique {r s : Program} (hr : Written ts r) (hs : Written ts s) : r = s := by
  obtain ⟨is, m, his, hm, rfl⟩ := hr
  obtain ⟨js, n, hjs, hn, rfl⟩ := hs
  obtain rfl := his.unique hjs
  obtain rfl : m = n := by simpa using hm.symm.trans hn
  rfl

end Trazo.Program
