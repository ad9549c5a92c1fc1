import Trazo.Proofs.Limits.Nesting
import Trazo.Proofs.Program.Completeness

/-!
A production looks no further than the token at which it stops.

Two parsers are twins up to an index if they stand at the same place and have the same tokens before
that index; what comes after it may differ. A production that stops before the index has the same
result on both, be it a value or a fault, and leaves twins behind. Each way of building productions
keeps this. Where a production repeats another one, the number of repetitions that are allowed may
differ too, as long as it is large enough for both.
-/

namespace Trazo

namespace Parser

variable {p q r : Parser} {limit : Nat}

/-- The tokens from the current one on. -/
def tokens (p : Parser) : List Token := p.current :: p.ahead

/-- The parser `q` is `p` some tokens later, none of them an end of the source. -/
structure Onward (p q : Parser) : Prop where
  ready : q.Ready
  passed : ∃ ts, p.tokens = ts ++ q.tokens ∧ q.index = p.index + ts.length ∧
    ∀ t ∈ ts, t.kind ≠ .endOfFile

lemma Onward.refl (hp : p.Ready) : p.Onward p := ⟨hp, [], rfl, rfl, by simp⟩

lemma Onward.trans (h : p.Onward q) (h' : q.Onward r) : p.Onward r := by
  obtain ⟨ts, hts, hi, hk⟩ := h.passed
  obtain ⟨us, hus, hi', hk'⟩ := h'.passed
  refine ⟨h'.ready, ts ++ us, ?_, ?_, ?_⟩
  · rw [hts, hus, List.append_assoc]
  · rw [hi', hi, List.length_append, Nat.add_assoc]
  · intro t ht
    rcases List.mem_append.mp ht with ht | ht
    · exact hk t ht
    · exact hk' t ht

lemma Onward.index_le (h : p.Onward q) : p.index ≤ q.index := by
  obtain ⟨ts, -, hi, -⟩ := h.passed
  omega

/-- What is passed on the way is what can no longer be read. -/
lemma Onward.pending (h : p.Onward q) :
    ∃ ts, p.tokens = ts ++ q.tokens ∧ p.pending = ts ++ q.pending ∧
      q.index = p.index + ts.length := by
  obtain ⟨ts, hts, hi, hk⟩ := h.passed
  refine ⟨ts, hts, ?_, hi⟩
  have hp : p.pending = p.tokens.takeWhile fun t => t.kind ≠ .endOfFile := rfl
  rw [hp, hts, List.takeWhile_append_of_pos (by simpa using hk)]
  rfl

/-- A token that is not the end is followed by another. -/
lemma next_of_ready (hp : p.Ready) (hk : p.current.kind ≠ .endOfFile) :
    ∃ t ts, p.ahead = t :: ts ∧
      p.next = { p with current := t, ahead := ts, index := p.index + 1 } := by
  obtain ⟨t, ht, he⟩ := hp.ends
  unfold next
  rw [if_neg hk]
  cases hahead : p.ahead with
  | nil =>
    rw [hahead, List.mem_singleton] at ht
    rw [ht] at he
    exact absurd he hk
  | cons u us => exact ⟨u, us, rfl, rfl⟩

lemma next_of_end (hk : p.current.kind = .endOfFile) : p.next = p := by
  unfold next
  rw [if_pos hk]

/-- Two parsers that stand at the same place, with the same tokens before the index `limit`. -/
structure Twin (limit : Nat) (p q : Parser) : Prop where
  ready : p.Ready
  ready_twin : q.Ready
  index : q.index = p.index
  depth : q.depth = p.depth
  cap : q.cap = p.cap
  tokens : q.tokens.take (limit - p.index) = p.tokens.take (limit - p.index)

lemma Twin.refl (limit : Nat) (hp : p.Ready) : p.Twin limit p := ⟨hp, hp, rfl, rfl, rfl, rfl⟩

lemma Twin.tokens_cons (h : p.Twin limit q) (hlt : p.index < limit) :
    q.current = p.current ∧
      q.ahead.take (limit - (p.index + 1)) = p.ahead.take (limit - (p.index + 1)) := by
  have htake := h.tokens
  have hn : limit - p.index = (limit - (p.index + 1)) + 1 := by omega
  rw [hn, Parser.tokens, Parser.tokens, List.take_succ_cons, List.take_succ_cons] at htake
  exact List.cons.inj htake

lemma Twin.current (h : p.Twin limit q) (hlt : p.index < limit) : q.current = p.current :=
  (h.tokens_cons hlt).1

lemma Twin.isAt (h : p.Twin limit q) (hlt : p.index < limit) (kinds : List Token.Kind) :
    q.isAt kinds = p.isAt kinds := by
  unfold Parser.isAt
  rw [h.current hlt]

lemma Twin.room (h : p.Twin limit q) : q.room = p.room := by
  unfold Parser.room
  rw [h.depth, h.cap]

lemma Twin.next (h : p.Twin limit q) (hlt : p.index < limit) : p.next.Twin limit q.next := by
  obtain ⟨hcurrent, htake⟩ := h.tokens_cons hlt
  by_cases hk : p.current.kind = .endOfFile
  · rw [next_of_end hk, next_of_end (hcurrent ▸ hk)]
    exact h
  · have hk' : q.current.kind ≠ .endOfFile := hcurrent ▸ hk
    have hready := (passes_next h.ready hk).ready
    have hready' := (passes_next h.ready_twin hk').ready
    obtain ⟨t, ts, hahead, hnext⟩ := next_of_ready h.ready hk
    obtain ⟨u, us, hahead', hnext'⟩ := next_of_ready h.ready_twin hk'
    rw [hahead, hahead'] at htake
    rw [hnext] at hready ⊢
    rw [hnext'] at hready' ⊢
    refine ⟨hready, hready', ?_, h.depth, h.cap, htake⟩
    rw [h.index]

/-- Twins stay twins when blocks are opened or closed on both sides. -/
lemma Twin.map_depth (h : p.Twin limit q) (f : Nat → Nat) :
    ({ p with depth := f p.depth } : Parser).Twin limit { q with depth := f q.depth } :=
  ⟨ready_depth h.ready _, ready_depth h.ready_twin _, h.index, congrArg f h.depth, h.cap, h.tokens⟩

end Parser

namespace Parse

variable {α β : Type} {x y : Parse α} {p q : Parser} {limit : Nat}

/-- From `p` the production `x` goes on, and if it stops before the index `limit`, then `y` has the
same result from `q`, and stops at the same place. -/
structure Together (limit : Nat) (x y : Parse α) (p q : Parser) : Prop where
  onward : p.Onward (x p).2
  same : (x p).2.index < limit → (y q).1 = (x p).1 ∧ (x p).2.Twin limit (y q).2

/-- The production cannot tell twins apart unless it comes to where they differ. -/
def Local (x : Parse α) : Prop := ∀ limit p q, p.Twin limit q → Together limit x x p q

lemma Local.onward (h : Local x) (hp : p.Ready) : p.Onward (x p).2 :=
  (h 0 p p (.refl 0 hp)).onward

/-! ### Single tokens -/

lemma onward_bind {f : α → Parse β} (hx : p.Onward (x p).2)
    (hf : ∀ a, (x p).1 = .ok a → (x p).2.Onward (f a (x p).2).2) :
    p.Onward ((x >>= f) p).2 := by
  rcases hp : x p with ⟨_ | a, p'⟩
  · rw [hp] at hx
    rw [bind_of_error hp]
    exact hx
  · rw [hp] at hx hf
    rw [bind_of_ok hp]
    exact hx.trans (hf a rfl)

lemma Together.bind {f g : α → Parse β} (hx : Together limit x y p q)
    (hon : ∀ a, (x p).1 = .ok a → (x p).2.Onward (f a (x p).2).2)
    (hf : ∀ a, (x p).1 = .ok a → (y q).1 = .ok a → (x p).2.Twin limit (y q).2 →
      Together limit (f a) (g a) (x p).2 (y q).2) :
    Together limit (x >>= f) (y >>= g) p q := by
  refine ⟨onward_bind hx.onward hon, fun hlt => ?_⟩
  have hsame := hx.same
  rcases hp : x p with ⟨_ | a, p'⟩ <;> rcases hq : y q with ⟨r, q'⟩ <;>
    rw [hp, hq] at hsame <;> rw [hp] at hon
  · rw [bind_of_error hp] at hlt ⊢
    obtain ⟨rfl, htwin⟩ := hsame hlt
    rw [bind_of_error hq]
    exact ⟨rfl, htwin⟩
  · rw [bind_of_ok hp] at hlt ⊢
    -- the first part stops no later than the second, so before the limit too
    obtain ⟨rfl, htwin⟩ := hsame (Nat.lt_of_le_of_lt (hon a rfl).index_le hlt)
    rw [bind_of_ok hq]
    rw [hp, hq] at hf
    exact (hf a rfl rfl htwin).same hlt

lemma collect_of_isAt {stop : List Token.Kind} (h : p.isAt stop = true) (item : Parse α) (n : Nat) :
    collect stop item n p = (.ok [], p) := by
  cases n with
  | zero => rfl
  | succ n =>
    change (if p.isAt stop then pure [] else _ : Parse (List α)) p = _
    rw [if_pos h]
    rfl

lemma collect_of_not_isAt {stop : List Token.Kind} (h : p.isAt stop = false) (item : Parse α)
    (n : Nat) :
    collect stop item (n + 1) p =
      (item >>= fun a => collect stop item n >>= fun rest => pure (a :: rest)) p := by
  change (if p.isAt stop then pure [] else _ : Parse (List α)) p = _
  rw [h]
  rfl

variable {rule : BlockRule}

lemma declarations_of_atEnd (h : p.atEnd = true) (a : Program) (n : Nat) :
    declarations a n p = (.ok a, p) := by
  cases n with
  | zero => rfl
  | succ n =>
    change (if p.atEnd then pure a else _ : Parse Program) p = _
    rw [if_pos h]
    rfl

lemma declarations_of_not_atEnd (h : p.atEnd = false) (a : Program) (n : Nat) :
    declarations a (n + 1) p = (declaration a >>= fun b => declarations b n) p := by
  change (if p.atEnd then pure a else _ : Parse Program) p = _
  rw [h]
  rfl

end Parse

end Trazo
