import Trazo.Proofs.Run.Meaning

/-!
Loops that would run no command, call or condition.

Running such a loop only checks the counts of the loops in it, in the order in which a run comes to
them. So the check of all counts at the head of the loop has the same outcome as really running it,
whatever the counts are.
-/

namespace Trazo.Run

variable {σ ε : Type} {R : Rules σ ε} {inert : Block → Bool} {w : World σ}

/-- Every statement of a block in `inert` is a loop over a block in `inert`. -/
def Hereditary (inert : Block → Bool) : Prop :=
  ∀ b, inert b = true → ∀ s ∈ b, ∃ count body line,
    s = .loop count body line ∧ inert body = true

lemma hereditary_blockIsInert : Hereditary blockIsInert := by
  intro b hb s hs
  induction b with
  | nil => simp at hs
  | cons t r ih =>
    simp only [blockIsInert, Bool.and_eq_true] at hb
    rcases List.mem_cons.mp hs with rfl | hr
    · cases s with
      | loop count body line => exact ⟨count, body, line, rfl, hb.1⟩
      | _ => simp [Statement.isInert] at hb
    · exact ih hb.2 hr

/-- The outcome of a check on counts: the first count above the limit is a failure. -/
def World.checked (R : Rules σ ε) (w : World σ) : Option (Int × Int) → Outcome σ ε
  | none => .done w
  | some (count, line) => w.stop (.repeatLimit count R.settings.maxRepeat line)

lemma leads_passes_checked {b : Block} {x : Option (Int × Int)}
    (hb : Leads R (.block b) w (w.checked R x)) (n : Nat) (hn : 0 < n) :
    Leads R (.passes n b) w (w.checked R x) := by
  obtain ⟨k, rfl⟩ : ∃ k, n = k + 1 := ⟨n - 1, by omega⟩
  cases x with
  | some c => exact .passFail hb
  | none =>
    clear hn
    induction k with
    | zero => exact .pass hb .noPass
    | succ k ih => exact .pass hb ih

mutual

/-- An inert loop does what the check at its head does. -/
lemma leads_inert_statement (hi : Hereditary inert) (hc : w.cancelled = false) :
    ∀ s : Statement, (∃ count body line, s = .loop count body line ∧ inert body = true) →
      Leads R (.statement s) w (w.checked R (overLimit inert R.settings.maxRepeat s))
  | .loop count body line, h => by
    obtain ⟨_, _, _, he, hin⟩ := h
    cases he
    have hb := leads_inert_block hi hc body (hi body hin)
    unfold overLimit
    split
    · exact .overLimit hc (by omega)
    · rename_i hle
      refine .loop hc (by omega) ?_
      split
      · rename_i hpos
        simp only [Bool.and_eq_true, decide_eq_true_eq] at hpos
        exact leads_passes_checked hb _ (by omega)
      · rename_i hpos
        simp only [hin, Bool.and_true, decide_eq_true_eq] at hpos
        have h0 : count.toNat = 0 := by omega
        rw [h0]
        exact .noPass
  | .command .., h | .call .., h | .branch .., h | .foreign .., h => by
    obtain ⟨_, _, _, he, _⟩ := h
    cases he

/-- A block of inert loops does what the checks at their heads do, one after the other. -/
lemma leads_inert_block (hi : Hereditary inert) (hc : w.cancelled = false) :
    ∀ b : Block, (∀ s ∈ b, ∃ count body line, s = .loop count body line ∧ inert body = true) →
      Leads R (.block b) w (w.checked R (anyOverLimit inert R.settings.maxRepeat b))
  | [], _ => .nil
  | s :: r, h => by
    have hs := leads_inert_statement hi hc s (h s (by simp))
    have hr := leads_inert_block hi hc r fun t ht => h t (by simp [ht])
    unfold anyOverLimit
    cases ho : overLimit inert R.settings.maxRepeat s with
    | none =>
      rw [ho] at hs
      exact .cons hs hr
    | some c =>
      rw [ho] at hs
      exact .consFail hs

end

end Trazo.Run
