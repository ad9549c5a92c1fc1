import Trazo.Failure
import Trazo.Proofs.Program.Provenance
import Trazo.Proofs.Program.Unambiguity
import Trazo.Proofs.Text.Numeral

/-!
The language that is accepted: the token lists that write a program whose blocks nest within a cap.

Soundness and completeness of the parser say so for every list that ends with the end of the
source. All other lists have a fault that is reported, if the integers in them can be written.
-/

namespace Trazo.Program

open Parse

variable {tokens : List Token} {cap : Int}

/-- The tokens that count: those before the first end of the source. -/
def effective (tokens : List Token) : List Token :=
  tokens.takeWhile fun t => t.kind ≠ .endOfFile

/-- The tokens end with the end of the source, and names and numbers hold what they should. -/
structure Ended (tokens : List Token) : Prop where
  last : (tokens.getLast?.map (·.kind)) = some .endOfFile
  valued : ∀ t ∈ tokens, t.Valued

/-- A parser over such tokens is ready to read them, with room for `cap` blocks. -/
lemma exists_parser_of_ended (h : Ended tokens) (cap : Int) :
    ∃ p, Parser.ofTokens? tokens cap = some p ∧ p.Ready ∧ p.pending = effective tokens ∧
      p.room = cap.toNat := by
  obtain ⟨hlast, hvalued⟩ := h
  cases tokens with
  | nil => simp at hlast
  | cons t ts =>
    have hkind : (ts.getLast?.getD t).kind = .endOfFile := by
      simpa [List.getLast?_cons] using hlast
    have hmem : ts.getLast?.getD t ∈ t :: ts := by
      refine List.mem_of_getLast? ?_
      rw [List.getLast?_cons]
    refine ⟨⟨t, ts, 0, 0, cap⟩, ?_, ⟨⟨_, hmem, hkind⟩, hvalued⟩, rfl, ?_⟩
    · simp only [Parser.ofTokens?, hkind, if_true]
    · simp [Parser.room]

lemma nestsWithin_iff {p : Program} :
    p.NestsWithin cap ↔ ∀ b ∈ p.blocks, 1 + blockNesting b ≤ cap.toNat := by
  refine forall₂_congr fun b _ => ?_
  omega

/-- There is room for the blocks of a program that nests within the cap. -/
lemma forall_blockFits_iff {p : Program} {lax : Prop} :
    (∀ b ∈ p.blocks, BlockFits cap.toNat b lax) ↔ p.NestsWithin cap ∧ (lax ∨ p.Countable) := by
  have hcounts : (∀ b ∈ p.blocks, lax ∨ BlockCountable b) ↔ lax ∨ p.Countable := by
    by_cases hlax : lax <;> simp [hlax, Countable]
  rw [nestsWithin_iff, ← hcounts]
  exact forall₂_and

/-- The program is returned, or a fault when there is none. -/
lemma ofTokens_cases (h : Ended tokens) (cap : Int) :
    (∃ r, ofTokens tokens cap = .ok r ∧ Written (effective tokens) r ∧ r.NestsWithin cap ∧
        r.Countable) ∨
      ∃ e, ofTokens tokens cap = .error (.parse e) ∧ ((∃ f, e = .grammar f) ∨ e = .unwritable) := by
  obtain ⟨p, hp, hready, hpend, hroom⟩ := exists_parser_of_ended h cap
  have hsound := program_sound hready
  unfold After at hsound
  unfold ofTokens
  rw [hp]
  split at hsound
  · rename_i r q hr
    rw [hpend, hroom, forall_blockFits_iff, false_or] at hsound
    exact .inl ⟨r, by simp [hr, Except.mapError], hsound⟩
  · rename_i e q hr
    exact .inr ⟨e, by simp [hr, Except.mapError], hsound⟩

/-- A program within the cap is returned, unless a count in it cannot be written and the reading is
`lax`. -/
lemma ofTokens_of_written_of_lax (h : Ended tokens) {r : Program} {lax : Prop}
    (hr : Written (effective tokens) r) (hd : r.NestsWithin cap) (hw : lax ∨ r.Countable) :
    ofTokens tokens cap = .ok r ∨ lax ∧ ofTokens tokens cap = .error (.parse .unwritable) := by
  obtain ⟨p, hp, hready, hpend, hroom⟩ := exists_parser_of_ended h cap
  rw [← hpend] at hr
  have hfits := forall_blockFits_iff.mpr ⟨hd, hw⟩
  rw [← hroom] at hfits
  have hcomplete : After program p (fun r' _ => r' = r) (fun e _ => lax ∧ e = .unwritable) :=
    program_complete hready hr hfits (fun hlax _ => ⟨hlax, rfl⟩) fun _ => rfl
  unfold After at hcomplete
  unfold ofTokens
  rw [hp]
  split at hcomplete
  · rename_i r' q hr'
    exact .inl (by simp [hr', Except.mapError, hcomplete])
  · rename_i e q he
    exact .inr ⟨hcomplete.1, by simp [he, Except.mapError, hcomplete.2]⟩

lemma ofTokens_of_written (h : Ended tokens) {r : Program} (hr : Written (effective tokens) r)
    (hd : r.NestsWithin cap) (hw : r.Countable) : ofTokens tokens cap = .ok r :=
  (ofTokens_of_written_of_lax h hr hd (.inr hw)).resolve_right And.left

/-- The integers that can be written. -/
def writable : Set Int := {n | Text.Integer.isWritable n = true}

end Trazo.Program
