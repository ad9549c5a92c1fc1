import Mathlib.Data.List.TakeWhile
import Mathlib.Tactic.ByContra
import Mathlib.Tactic.SplitIfs
import Trazo.Proofs.Program.Grammar

/-!
Reasoning about productions: what holds after one, of its value or of its fault.

A parser is ready when an end of the source is still to come and names and numbers hold what they
should. The tokens before that end are what the parser can still read. Productions are followed
token by token, by one rule for each way of reading.
-/

namespace Trazo

namespace Token

/-- An identifier holds text, a number holds a number. -/
def Valued (t : Token) : Prop :=
  (t.kind = .identifier → ∃ s, t.content = .text s) ∧
    (t.kind = .number → ∃ n, t.content = .number n)

end Token

namespace Parser

/-- The tokens that can still be read: those before the first end of the source. -/
def pending (p : Parser) : List Token :=
  (p.current :: p.ahead).takeWhile fun t => t.kind ≠ .endOfFile

structure Ready (p : Parser) : Prop where
  ends : ∃ t ∈ p.current :: p.ahead, t.kind = .endOfFile
  valued : ∀ t ∈ p.current :: p.ahead, t.Valued

/-- The parser `q` is `p` after the tokens `ts`. -/
structure Passes (p : Parser) (ts : List Token) (q : Parser) : Prop where
  pending : p.pending = ts ++ q.pending
  ready : q.Ready
  depth : q.depth = p.depth
  cap : q.cap = p.cap

variable {p q r : Parser} {ts us : List Token} {t : Token}

lemma Passes.refl (hp : p.Ready) : p.Passes [] p := ⟨rfl, hp, rfl, rfl⟩

lemma Passes.trans (h : p.Passes ts q) (h' : q.Passes us r) : p.Passes (ts ++ us) r where
  pending := by rw [h.pending, h'.pending, List.append_assoc]
  ready := h'.ready
  depth := h'.depth.trans h.depth
  cap := h'.cap.trans h.cap

lemma Passes.room (h : p.Passes ts q) : q.room = p.room := by
  unfold Parser.room
  rw [h.depth, h.cap]

lemma Passes.rest (h : p.Passes ts q) (hp : p.pending = ts ++ us) : q.pending = us :=
  List.append_cancel_left (h.pending.symm.trans hp)

lemma ready_depth (hp : p.Ready) (d : Nat) : ({ p with depth := d } : Parser).Ready :=
  ⟨hp.ends, hp.valued⟩

/-- What is passed inside a block is passed outside it. -/
lemma Passes.of_nested (h : ({ p with depth := p.depth + 1 } : Parser).Passes ts q) :
    p.Passes ts { q with depth := q.depth - 1 } where
  pending := h.pending
  ready := ready_depth h.ready _
  depth := by simp [h.depth]
  cap := h.cap

lemma pending_eq_nil_iff : p.pending = [] ↔ p.current.kind = .endOfFile := by
  unfold pending
  rw [List.takeWhile_cons]
  by_cases h : p.current.kind = .endOfFile <;> simp [h]

lemma current_of_pending {rest : List Token} (h : p.pending = t :: rest) :
    p.current = t ∧ t.kind ≠ .endOfFile := by
  unfold pending at h
  rw [List.takeWhile_cons] at h
  by_cases hk : p.current.kind = .endOfFile
  · simp [hk] at h
  · simp only [ne_eq, hk, not_false_eq_true, decide_true, if_true, List.cons.injEq] at h
    exact ⟨h.1, h.1 ▸ hk⟩

/-- A token that is not the end is passed. -/
lemma passes_next (hp : p.Ready) (hk : p.current.kind ≠ .endOfFile) :
    p.Passes [p.current] p.next := by
  obtain ⟨current, ahead, index, depth, cap⟩ := p
  obtain ⟨⟨t, ht, he⟩, hv⟩ := hp
  cases ahead with
  | nil =>
    obtain rfl := List.mem_singleton.mp ht
    exact absurd he hk
  | cons u us =>
    have hu : t ∈ u :: us := by
      rcases List.mem_cons.mp ht with rfl | hu
      · exact absurd he hk
      · exact hu
    refine ⟨?_, ⟨⟨t, ?_, he⟩, ?_⟩, ?_, ?_⟩
    all_goals simp_all [next, pending]

lemma room_next : p.next.room = p.room := by
  unfold next
  split_ifs
  · rfl
  · cases p.ahead <;> rfl

lemma current_valued (hp : p.Ready) : p.current.Valued := hp.valued _ (by simp)

/-- There are no more tokens to read than tokens ahead. -/
lemma length_pending_le (hp : p.Ready) : p.pending.length ≤ p.ahead.length := by
  obtain ⟨t, ht, he⟩ := hp.ends
  by_contra hc
  have hle : p.pending.length ≤ (p.current :: p.ahead).length :=
    (List.takeWhile_sublist _).length_le
  have hlen : p.pending.length = (p.current :: p.ahead).length := by
    simp only [List.length_cons] at hle ⊢
    omega
  have hfull : p.pending = p.current :: p.ahead := (List.takeWhile_sublist _).eq_of_length hlen
  have := List.mem_takeWhile_imp (show t ∈ p.pending by rw [hfull]; exact ht)
  simp [he] at this

end Parser

namespace Parse

variable {α β : Type} {p : Parser} {Q : α → Parser → Prop} {E : ParseFault → Parser → Prop}

/-- After the production `x` from `p`, `Q` holds of its value or `E` of its fault. -/
def After (x : Parse α) (p : Parser) (Q : α → Parser → Prop) (E : ParseFault → Parser → Prop) :
    Prop :=
  match x p with
  | (.ok a, q) => Q a q
  | (.error e, q) => E e q

lemma After.mono {x : Parse α} {Q' : α → Parser → Prop} {E' : ParseFault → Parser → Prop}
    (h : After x p Q E) (hq : ∀ a q, Q a q → Q' a q) (he : ∀ e q, E e q → E' e q) :
    After x p Q' E' := by
  unfold After at h ⊢
  split at h <;> simp_all

@[simp]
lemma after_bind (x : Parse β) (f : β → Parse α) :
    After (x >>= f) p Q E ↔ After x p (fun b q => After (f b) q Q E) E := by
  have h : (x >>= f) p = match x p with
      | (.ok a, p) => f a p
      | (.error e, p) => (.error e, p) := rfl
  unfold After
  rw [h]
  rcases x p with ⟨_ | b, q⟩ <;> rfl

@[simp]
lemma after_get {Q : Parser → Parser → Prop} : After get p Q E ↔ Q p p := Iff.rfl

lemma isAt_singleton {k : Token.Kind} : p.isAt [k] = true ↔ p.current.kind = k := by
  simp [Parser.isAt]

lemma after_consumeIf {k : Token.Kind} {Q : Option Token → Parser → Prop} :
    After (consumeIf [k]) p Q E ↔
      if p.current.kind = k then Q (some p.current) p.next else Q none p := by
  unfold After consumeIf
  simp only [isAt_singleton]
  split_ifs <;> rfl

lemma after_written {c : Token.Content} {Q : String → Parser → Prop} :
    After (written c) p Q E ↔
      if c.numbers.all Text.Integer.isWritable then Q c.toText p else E .unwritable p := by
  unfold After written
  split_ifs <;> rfl

lemma after_written_text {s : String} {Q : String → Parser → Prop} :
    After (written (.text s)) p Q E ↔ Q s p := Iff.rfl

/-- A number is written, unless it cannot be and that does not matter. -/
lemma after_written_number {n : Int} {lax : Prop} {Q : String → Parser → Prop}
    (h : lax ∨ Text.Integer.isWritable n = true) (hE : lax → ∀ q, E .unwritable q)
    (hq : Q (toString n) p) : After (written (.number n)) p Q E := by
  rw [after_written]
  split_ifs with hn
  · exact hq
  · refine hE (h.resolve_right fun hw => hn ?_) p
    simpa [Token.Content.numbers] using hw

lemma after_nested {x : Parse α} : After (nested x) p Q E ↔
    After x { p with depth := p.depth + 1 } (fun a q => Q a { q with depth := q.depth - 1 })
      (fun e q => E e { q with depth := q.depth - 1 }) := by
  unfold After nested
  dsimp only
  rcases x { p with depth := p.depth + 1 } with ⟨_ | a, q⟩ <;> rfl

/-! ### Reading a token -/

/-- The fault is one of the grammar, or a token cannot be written. -/
def Refused (e : ParseFault) (_ : Parser) : Prop := (∃ f, e = .grammar f) ∨ e = .unwritable

lemma after_fail {cause : SyntaxCause} : After (fail cause) p Q Refused := .inl ⟨_, rfl⟩

lemma after_failOn {line : Int} {cause : SyntaxCause} : After (failOn line cause) p Q Refused :=
  .inl ⟨_, rfl⟩

lemma after_failAt {t : Token} {cause : SyntaxCause} : After (failAt t cause) p Q Refused :=
  .inl ⟨_, rfl⟩

/-- A content is written, or that is the fault. -/
lemma after_written_of {c : Token.Content} {Q : String → Parser → Prop}
    (hq : c.numbers.all Text.Integer.isWritable = true → Q c.toText p) :
    After (written c) p Q Refused := by
  rw [after_written]
  split_ifs with h
  · exact hq h
  · exact .inr rfl

lemma after_expect_iff {k : Token.Kind} {advice : String} {Q : Token → Parser → Prop} :
    After (expect k advice) p Q E ↔
      if p.current.kind = k then Q p.current p.next
      else After (fail (.expected k advice)) p Q E := by
  unfold After expect
  split_ifs <;> rfl

/-- A token that is expected is there, or the production is refused. -/
lemma after_expect {k : Token.Kind} {advice : String} {Q : Token → Parser → Prop}
    (hp : p.Ready) (hk : k ≠ .endOfFile)
    (hq : p.current.kind = k → p.Passes [p.current] p.next → Q p.current p.next) :
    After (expect k advice) p Q Refused := by
  rw [after_expect_iff]
  split_ifs with h
  · exact hq h (Parser.passes_next hp (h ▸ hk))
  · exact after_fail

/-- A token that is expected and there is passed. -/
lemma after_expect_of_pending {k : Token.Kind} {advice : String} {Q : Token → Parser → Prop}
    {t : Token} {rest : List Token} (hp : p.Ready) (h : p.pending = t :: rest) (hk : t.kind = k)
    (hq : ∀ q, p.Passes [t] q → q.pending = rest → Q t q) : After (expect k advice) p Q E := by
  obtain ⟨hc, he⟩ := Parser.current_of_pending h
  have hn := Parser.passes_next hp (hc ▸ he)
  rw [hc] at hn
  rw [after_expect_iff, hc, if_pos hk]
  exact hq p.next hn (hn.rest h)

end Parse

end Trazo
