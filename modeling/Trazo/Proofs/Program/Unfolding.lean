import Mathlib.Logic.Function.Iterate
import Trazo.Proofs.Program.Lookahead

/-!
Loops and recursion of the parser, unfolded.

A loop is as many of its turns as it takes, and the rule for blocks is used inside itself. Unfolded
a number of times, with anything at all in the place of what would come next, they do what the
parser does as soon as that number exceeds the number of tokens in sight: what comes next is never
asked for. This holds of any tokens, whatever they say, and nothing after the first end of the
source makes a difference to it.
-/

namespace Trazo

/-- The place of the first end of the source. -/
def firstEnd (ts : List Token) : Nat := ts.findIdx fun t => t.kind = .endOfFile

/-- The tokens up to and with the first end of the source. -/
def toEnd (ts : List Token) : List Token := ts.take (firstEnd ts + 1)

lemma toEnd_cons (t : Token) (ts : List Token) :
    toEnd (t :: ts) = t :: if t.kind = .endOfFile then [] else toEnd ts := by
  unfold toEnd firstEnd
  by_cases h : t.kind = .endOfFile <;> simp [List.findIdx_cons, h]

lemma toEnd_append {ts us : List Token} (h : ∀ t ∈ ts, t.kind ≠ .endOfFile) :
    toEnd (ts ++ us) = ts ++ toEnd us := by
  induction ts with
  | nil => rfl
  | cons t ts ih =>
    rw [List.cons_append, toEnd_cons, if_neg (h t (by simp)), ih fun u hu => h u (by simp [hu])]
    rfl

lemma exists_mem_toEnd {ts : List Token} (h : ∃ t ∈ ts, t.kind = .endOfFile) :
    ∃ t ∈ toEnd ts, t.kind = .endOfFile := by
  induction ts with
  | nil => simp at h
  | cons t ts ih =>
    rw [toEnd_cons]
    by_cases ht : t.kind = .endOfFile
    · exact ⟨t, by simp, ht⟩
    · obtain ⟨u, hu, he⟩ := ih (by simpa [ht] using h)
      exact ⟨u, by simp [ht, hu], he⟩

namespace Parser

variable {p q r : Parser}

/-- The tokens that the parser can come to look at. -/
def visible (p : Parser) : List Token := toEnd p.tokens

/-- An end of the source is still to come. -/
def SeesEnd (p : Parser) : Prop := ∃ t ∈ p.visible, t.kind = .endOfFile

/-- The parser `q` is `p` some tokens later, none of them an end of the source, with as many blocks
open. -/
structure Reaches (p q : Parser) : Prop where
  passed : ∃ ts, p.tokens = ts ++ q.tokens ∧ q.index = p.index + ts.length ∧
    ∀ t ∈ ts, t.kind ≠ .endOfFile
  depth : q.depth = p.depth
  cap : q.cap = p.cap

lemma Reaches.refl (p : Parser) : p.Reaches p := ⟨⟨[], rfl, rfl, by simp⟩, rfl, rfl⟩

lemma Reaches.trans (h : p.Reaches q) (h' : q.Reaches r) : p.Reaches r := by
  obtain ⟨ts, hts, hi, hk⟩ := h.passed
  obtain ⟨us, hus, hi', hk'⟩ := h'.passed
  refine ⟨⟨ts ++ us, ?_, ?_, ?_⟩, h'.depth.trans h.depth, h'.cap.trans h.cap⟩
  · rw [hts, hus, List.append_assoc]
  · rw [hi', hi, List.length_append, Nat.add_assoc]
  · exact List.forall_mem_append.mpr ⟨hk, hk'⟩

lemma Reaches.index_le (h : p.Reaches q) : p.index ≤ q.index := by
  obtain ⟨ts, -, hi, -⟩ := h.passed
  omega

/-- What comes in sight no more is what has been passed. -/
lemma Reaches.length_visible (h : p.Reaches q) :
    p.index + p.visible.length = q.index + q.visible.length := by
  obtain ⟨ts, hts, hi, hk⟩ := h.passed
  have hvisible : p.visible = ts ++ q.visible := by
    unfold visible
    rw [hts, toEnd_append hk]
  rw [hvisible, hi, List.length_append, Nat.add_assoc]

lemma Reaches.room (h : p.Reaches q) : q.room = p.room := by
  unfold Parser.room
  rw [h.depth, h.cap]

/-- What is reached inside a block is reached outside it. -/
lemma Reaches.of_nested (h : ({ p with depth := p.depth + 1 } : Parser).Reaches q) :
    p.Reaches { q with depth := q.depth - 1 } := ⟨h.passed, by simp [h.depth], h.cap⟩

lemma Reaches.eq (h : p.Reaches q) (h' : p.Reaches r) (hindex : q.index = r.index) : q = r := by
  obtain ⟨ts, hts, hi, -⟩ := h.passed
  obtain ⟨us, hus, hi', -⟩ := h'.passed
  have htokens := (List.append_inj (hts.symm.trans hus) (by omega)).2
  obtain ⟨hcurrent, hahead⟩ := List.cons.inj htokens
  have hdepth : q.depth = r.depth := h.depth.trans h'.depth.symm
  have hcap : q.cap = r.cap := h.cap.trans h'.cap.symm
  cases q
  cases r
  simp only [mk.injEq]
  exact ⟨hcurrent, hahead, hindex, hdepth, hcap⟩

/-- Two parsers that stand at the same place and see the same tokens. What stands after the first
end of the source may differ. -/
structure Peers (p q : Parser) : Prop where
  ends : p.SeesEnd
  visible : q.visible = p.visible
  index : q.index = p.index
  depth : q.depth = p.depth
  cap : q.cap = p.cap

lemma Peers.refl (h : p.SeesEnd) : p.Peers p := ⟨h, rfl, rfl, rfl, rfl⟩

lemma Peers.seesEnd (h : p.Peers q) : q.SeesEnd := by
  unfold SeesEnd
  rw [h.visible]
  exact h.ends

lemma Peers.symm (h : p.Peers q) : q.Peers p :=
  ⟨h.seesEnd, h.visible.symm, h.index.symm, h.depth.symm, h.cap.symm⟩

lemma Peers.trans (h : p.Peers q) (h' : q.Peers r) : p.Peers r :=
  ⟨h.ends, h'.visible.trans h.visible, h'.index.trans h.index, h'.depth.trans h.depth,
    h'.cap.trans h.cap⟩

lemma visible_eq (p : Parser) :
    p.visible = p.current :: if p.current.kind = .endOfFile then [] else toEnd p.ahead :=
  toEnd_cons p.current p.ahead

lemma Peers.current (h : p.Peers q) : q.current = p.current := by
  have hvisible := h.visible
  rw [visible_eq, visible_eq] at hvisible
  exact (List.cons.inj hvisible).1

lemma Peers.isAt (h : p.Peers q) (kinds : List Token.Kind) : q.isAt kinds = p.isAt kinds := by
  unfold Parser.isAt
  rw [h.current]

/-- Peers stay peers when blocks are opened or closed on both sides. -/
lemma Peers.map_depth (h : p.Peers q) (f : Nat → Nat) :
    ({ p with depth := f p.depth } : Parser).Peers { q with depth := f q.depth } :=
  ⟨h.ends, h.visible, h.index, congrArg f h.depth, h.cap⟩

/-- A token that is not the end of the source is followed by another that is in sight. -/
lemma SeesEnd.exists_next (h : p.SeesEnd) (hk : p.current.kind ≠ .endOfFile) :
    ∃ t ts, p.ahead = t :: ts ∧
      p.next = { p with current := t, ahead := ts, index := p.index + 1 } ∧
      p.visible = p.current :: p.next.visible := by
  have hvisible := visible_eq p
  rw [if_neg hk] at hvisible
  unfold next
  rw [if_neg hk]
  cases hahead : p.ahead with
  | nil =>
    obtain ⟨t, ht, he⟩ := h
    rw [hvisible, hahead] at ht
    rw [List.mem_singleton.mp ht] at he
    exact absurd he hk
  | cons u us =>
    rw [hahead] at hvisible
    exact ⟨u, us, rfl, rfl, hvisible⟩

lemma SeesEnd.reaches_next (h : p.SeesEnd) : p.Reaches p.next := by
  by_cases hk : p.current.kind = .endOfFile
  · rw [next_of_end hk]
    exact .refl p
  · obtain ⟨t, ts, hahead, hnext, -⟩ := h.exists_next hk
    rw [hnext]
    exact ⟨⟨[p.current], by rw [tokens, tokens, hahead]; rfl, rfl, by simpa using hk⟩, rfl, rfl⟩

lemma Peers.next (h : p.Peers q) : p.next.Peers q.next := by
  by_cases hk : p.current.kind = .endOfFile
  · rw [next_of_end hk, next_of_end (h.current ▸ hk)]
    exact h
  · obtain ⟨t, ts, -, hnext, hvisible⟩ := h.ends.exists_next hk
    obtain ⟨u, us, -, hnext', hvisible'⟩ := h.seesEnd.exists_next (h.current ▸ hk)
    have hsame := h.visible
    rw [hvisible, hvisible', List.cons.injEq] at hsame
    refine ⟨?_, hsame.2, ?_, ?_, ?_⟩
    · obtain ⟨e, he, hend⟩ := h.ends
      rw [hvisible, List.mem_cons] at he
      rcases he with rfl | he
      · exact absurd hend hk
      · exact ⟨e, he, hend⟩
    · rw [hnext, hnext', h.index]
    · rw [hnext, hnext', h.depth]
    · rw [hnext, hnext', h.cap]

lemma length_visible_pos (p : Parser) : 0 < p.visible.length := by
  rw [visible_eq]
  simp

lemma SeesEnd.one_lt_length_visible (h : p.SeesEnd) (hk : p.current.kind ≠ .endOfFile) :
    1 < p.visible.length := by
  obtain ⟨t, ts, -, -, hvisible⟩ := h.exists_next hk
  rw [hvisible, List.length_cons]
  exact Nat.succ_lt_succ p.next.length_visible_pos

lemma length_visible_le (p : Parser) : p.visible.length ≤ p.ahead.length + 1 :=
  (List.take_sublist _ p.tokens).length_le

end Parser

namespace Parse

variable {α β : Type} {x y : Parse α} {p q : Parser} {k : Nat}

/-! ### Productions in agreement -/

/-- From `p` the production `x` does what `y` does from `q`, and no less than `k` tokens are passed
if there is a value. -/
structure Agree (k : Nat) (x y : Parse α) (p q : Parser) : Prop where
  reaches : p.Reaches (x p).2
  reaches_peer : q.Reaches (y q).2
  peers : (x p).2.Peers (y q).2
  same : (y q).1 = (x p).1
  advances : ∀ a, (x p).1 = .ok a → p.index + k ≤ (x p).2.index

lemma Agree.weaken {m : Nat} (h : Agree k x y p q) (hm : m ≤ k) : Agree m x y p q := by
  refine { h with advances := fun a ha => ?_ }
  have := h.advances a ha
  omega

/-- What agrees with one thing on both sides agrees with itself. -/
lemma agree_self {y : Nat → Parse α}
    (hx : ∀ n p q, p.Peers q → p.visible.length < n → Agree k x (y n) p q) (h : p.Peers q) :
    Agree k x x p q := by
  have hp := hx (p.visible.length + 1) p q h (Nat.lt_succ_self _)
  have hq := hx (p.visible.length + 1) q q (.refl h.seesEnd) (by rw [h.visible]; omega)
  exact ⟨hp.reaches, hq.reaches, hp.peers.trans hq.peers.symm, hq.same.symm.trans hp.same,
    hp.advances⟩

lemma Agree.eq (h : Agree k x y p p) : y p = x p :=
  Prod.ext h.same (h.reaches_peer.eq h.reaches h.peers.index)

lemma Agree.of_eq {x' y' : Parse α} (h : Agree k x' y' p q) (hx : x p = x' p) (hy : y q = y' q) :
    Agree k x y p q := by
  obtain ⟨hreaches, hreaches', hpeers, hsame, hadvances⟩ := h
  rw [← hx] at hreaches hpeers hsame hadvances
  rw [← hy] at hreaches' hpeers hsame
  exact ⟨hreaches, hreaches', hpeers, hsame, hadvances⟩

lemma agree_pure (h : p.Peers q) (a : α) : Agree 0 (pure a) (pure a) p q :=
  ⟨.refl p, .refl q, h, rfl, fun _ _ => Nat.le_refl _⟩

lemma agree_throw (h : p.Peers q) (f : ParseFault) : Agree k (throw f : Parse α) (throw f) p q :=
  ⟨.refl p, .refl q, h, rfl, by rintro _ ⟨⟩⟩

lemma agree_failAt (h : p.Peers q) (t : Token) (cause : SyntaxCause) :
    Agree k (failAt t cause : Parse α) (failAt t cause) p q := agree_throw h _

lemma agree_fail (h : p.Peers q) (cause : SyntaxCause) :
    Agree k (fail cause : Parse α) (fail cause) p q := by
  refine (agree_failAt h p.current cause).of_eq rfl ?_
  rw [← h.current]
  rfl

lemma agree_failOn (h : p.Peers q) (line : Int) (cause : SyntaxCause) :
    Agree k (failOn line cause : Parse α) (failOn line cause) p q := by
  refine (agree_throw h (.grammar ⟨cause, p.current, line, none⟩)).of_eq rfl ?_
  rw [← h.current]
  rfl

lemma agree_advance (h : p.Peers q) : Agree 0 advance advance p q where
  reaches := h.ends.reaches_next
  reaches_peer := h.seesEnd.reaches_next
  peers := h.next
  same := congrArg Except.ok h.current
  advances _ _ := h.ends.reaches_next.index_le

/-- What is not the end of the source is passed. -/
lemma agree_advance_of_ne (h : p.Peers q) (hk : p.current.kind ≠ .endOfFile) :
    Agree 1 advance advance p q := by
  refine { agree_advance h with advances := fun _ _ => ?_ }
  obtain ⟨t, ts, -, hnext, -⟩ := h.ends.exists_next hk
  change p.index + 1 ≤ p.next.index
  rw [hnext]

/-- What follows the first part of a production starts at least `k` tokens on. -/
lemma Agree.bind {f g : α → Parse β} (hx : Agree k x y p q)
    (hf : ∀ a p' q', p.Reaches p' → p.index + k ≤ p'.index → p'.Peers q' →
      Agree 0 (f a) (g a) p' q') : Agree k (x >>= f) (y >>= g) p q := by
  obtain ⟨hreaches, hreaches', hpeers, hsame, hadvances⟩ := hx
  rcases hp : x p with ⟨e | a, p'⟩ <;> rcases hq : y q with ⟨r, q'⟩ <;>
    rw [hp] at hreaches hpeers hsame hadvances <;> rw [hq] at hreaches' hpeers hsame <;>
    cases hsame
  · constructor <;> simp only [bind_of_error hp, bind_of_error hq]
    case reaches => exact hreaches
    case reaches_peer => exact hreaches'
    case peers => exact hpeers
    case advances => rintro b ⟨⟩
  · have hk : p.index + k ≤ p'.index := hadvances a rfl
    have hrest := hf a p' q' hreaches hk hpeers
    constructor <;> simp only [bind_of_ok hp, bind_of_ok hq]
    case reaches => exact hreaches.trans hrest.reaches
    case reaches_peer => exact hreaches'.trans hrest.reaches_peer
    case peers => exact hrest.peers
    case same => exact hrest.same
    case advances => exact fun b hb => Nat.le_trans hk (hrest.advances b hb)

lemma agree_get_left {f : Parser → Parse α} (h : Agree k (f p) y p q) :
    Agree k (get >>= f) y p q := h.of_eq rfl rfl

lemma agree_get_right {g : Parser → Parse α} (h : Agree k x (g q) p q) :
    Agree k x (get >>= g) p q := h.of_eq rfl rfl

lemma agree_get {f g : Parser → Parse α} (h : Agree k (f p) (g q) p q) :
    Agree k (get >>= f) (get >>= g) p q := agree_get_left (agree_get_right h)

lemma agree_expect_of_advance {wanted : Token.Kind} (h : p.Peers q)
    (hadvance : p.current.kind = wanted → Agree k advance advance p q) (advice : String) :
    Agree k (expect wanted advice) (expect wanted advice) p q := by
  by_cases hw : p.current.kind = wanted
  · exact (hadvance hw).of_eq (if_pos hw) (if_pos (h.current ▸ hw))
  · exact (agree_fail h _).of_eq (if_neg hw) (if_neg (h.current ▸ hw))

lemma agree_expect (h : p.Peers q) (wanted : Token.Kind) (advice : String) :
    Agree 0 (expect wanted advice) (expect wanted advice) p q :=
  agree_expect_of_advance h (fun _ => agree_advance h) advice

lemma agree_expect_of_ne {wanted : Token.Kind} (h : p.Peers q) (hk : wanted ≠ .endOfFile)
    (advice : String) : Agree 1 (expect wanted advice) (expect wanted advice) p q :=
  agree_expect_of_advance h (fun hw => agree_advance_of_ne h (hw ▸ hk)) advice

lemma agree_consumeIf (h : p.Peers q) (kinds : List Token.Kind) :
    Agree 0 (consumeIf kinds) (consumeIf kinds) p q := by
  cases hat : p.isAt kinds with
  | true =>
    have htaken : Agree 0 (advance >>= fun t => pure (some t)) (advance >>= fun t => pure (some t))
        p q := (agree_advance h).bind fun t _ _ _ _ h' => agree_pure h' _
    exact htaken.of_eq (if_pos hat) (if_pos ((h.isAt kinds).trans hat))
  | false =>
    refine (agree_pure h none).of_eq (if_neg ?_) (if_neg ?_)
    · simp [hat]
    · simp [h.isAt, hat]

lemma agree_written (h : p.Peers q) (c : Token.Content) :
    Agree 0 (written c) (written c) p q := by
  unfold written
  split
  · exact agree_pure h _
  · exact agree_throw h _

lemma agree_nested
    (h : Agree k x y { p with depth := p.depth + 1 } { q with depth := q.depth + 1 }) :
    Agree k (nested x) (nested y) p q := by
  obtain ⟨hreaches, hreaches', hpeers, hsame, hadvances⟩ := h
  exact ⟨hreaches.of_nested, hreaches'.of_nested, hpeers.map_depth (· - 1), hsame, hadvances⟩

/-! ### Loops -/

/-- One turn of the loop that collects items, `more` being what comes next. -/
def turn (stop : List Token.Kind) (item : Parse α) (more : Parse (List α)) : Parse (List α) := do
  if (← get).isAt stop then pure []
  else
    let a ← item
    let rest ← more
    pure (a :: rest)

lemma turn_of_isAt {stop : List Token.Kind} (h : p.isAt stop = true) (item : Parse α)
    (more : Parse (List α)) : turn stop item more p = (.ok [], p) := by
  change (if p.isAt stop then pure [] else _ : Parse (List α)) p = _
  rw [if_pos h]
  rfl

lemma turn_of_not_isAt {stop : List Token.Kind} (h : p.isAt stop = false) (item : Parse α)
    (more : Parse (List α)) :
    turn stop item more p = (item >>= fun a => more >>= fun rest => pure (a :: rest)) p := by
  change (if p.isAt stop then pure [] else _ : Parse (List α)) p = _
  rw [h]
  rfl

/-- A loop has no more turns than there are tokens in sight. -/
lemma agree_collect {stop : List Token.Kind} {item item' : Parse α} {n m : Nat}
    (hend : .endOfFile ∈ stop)
    (hitem : ∀ p' q', p.Reaches p' → p'.Peers q' → Agree 1 item item' p' q') (h : p.Peers q)
    (hn : p.visible.length ≤ n + 1) (hm : p.visible.length ≤ m) (more : Parse (List α)) :
    Agree 0 (collect stop item n) ((turn stop item')^[m] more) p q := by
  induction m generalizing p q n with
  | zero =>
    have := p.length_visible_pos
    omega
  | succ m ih =>
    rw [Function.iterate_succ_apply']
    cases hat : p.isAt stop with
    | true =>
      refine (agree_pure h []).of_eq (collect_of_isAt hat item n) (turn_of_isAt ?_ item' _)
      rw [h.isAt, hat]
    | false =>
      have hk : p.current.kind ≠ .endOfFile := by
        intro he
        rw [Parser.isAt, he] at hat
        simp [hend] at hat
      have hlength := h.ends.one_lt_length_visible hk
      obtain ⟨n, rfl⟩ : ∃ i, n = i + 1 := ⟨n - 1, by omega⟩
      refine Agree.of_eq ?_ (collect_of_not_isAt hat item n) (turn_of_not_isAt ?_ item' _)
      · refine ((hitem p q (.refl p) h).bind fun a p' q' hgo hindex h' => ?_).weaken (Nat.zero_le 1)
        have hleft := hgo.length_visible
        refine (ih (fun p'' q'' hgo' => hitem p'' q'' (hgo.trans hgo')) h' (by omega)
          (by omega)).bind ?_
        exact fun as _ _ _ _ h'' => agree_pure h'' _
      · rw [h.isAt, hat]

/-! ### Productions that open blocks -/

/-- From `p` on, the two rules for blocks do the same. -/
def RulesAgree (rule rule' : BlockRule) (p : Parser) : Prop :=
  ∀ p' q', p.Reaches p' → p'.Peers q' → ∀ what line,
    Agree 0 (rule what line) (rule' what line) p' q'

variable {rule rule' : BlockRule}

lemma agree_sensor (h : p.Peers q) : Agree 0 sensor sensor p q := by
  refine agree_get ?_
  rw [h.current]
  split
  · exact (agree_advance h).bind fun _ _ _ _ _ h' => agree_pure h' _
  · exact agree_fail h _

lemma agree_loop (h : p.Peers q)
    (hrule : ∀ p', p.Reaches p' → p.index < p'.index → RulesAgree rule rule' p') :
    Agree 1 (loop rule) (loop rule') p q := by
  unfold loop
  refine (agree_expect_of_ne h (by decide) _).bind fun start p₁ q₁ hgo hindex h => ?_
  have hrule := hrule p₁ hgo hindex
  refine (agree_expect h _ _).bind fun count p₂ q₂ hgo₂ _ h => ?_
  refine (agree_written h _).bind fun _ p₃ q₃ hgo₃ _ h => ?_
  refine (agree_expect h _ _).bind fun _ p₄ q₄ hgo₄ _ h => ?_
  refine (agree_expect h _ _).bind fun _ p₅ q₅ hgo₅ _ h => ?_
  have hgo := ((hgo₂.trans hgo₃).trans hgo₄).trans hgo₅
  refine (hrule p₅ q₅ hgo h _ _).bind fun body p₆ q₆ _ _ h => ?_
  split
  · exact agree_pure h _
  · exact agree_throw h _

lemma agree_branch (h : p.Peers q)
    (hrule : ∀ p', p.Reaches p' → p.index < p'.index → RulesAgree rule rule' p') :
    Agree 1 (branch rule) (branch rule') p q := by
  unfold branch
  refine (agree_expect_of_ne h (by decide) _).bind fun start p₁ q₁ hgo hindex h => ?_
  have hrule := hrule p₁ hgo hindex
  refine (agree_expect h _ _).bind fun _ p₂ q₂ hgo₂ _ h => ?_
  refine (agree_sensor h).bind fun s p₃ q₃ hgo₃ _ h => ?_
  refine (agree_expect h _ _).bind fun _ p₄ q₄ hgo₄ _ h => ?_
  refine (agree_expect h _ _).bind fun _ p₅ q₅ hgo₅ _ h => ?_
  have hgo := ((hgo₂.trans hgo₃).trans hgo₄).trans hgo₅
  refine (hrule p₅ q₅ hgo h _ _).bind fun yes p₆ q₆ hgo₆ _ h => ?_
  refine (agree_consumeIf h _).bind fun sino p₇ q₇ hgo₇ _ h => ?_
  cases sino with
  | none => exact agree_pure h _
  | some _ =>
    refine (agree_expect h _ _).bind fun _ p₈ q₈ hgo₈ _ h => ?_
    refine (hrule p₈ q₈ (((hgo.trans hgo₆).trans hgo₇).trans hgo₈) h _ _).bind ?_
    exact fun no _ _ _ _ h => agree_pure h _

lemma agree_call (h : p.Peers q) : Agree 1 call call p q := by
  unfold call
  refine (agree_expect_of_ne h (by decide) _).bind fun t p₁ q₁ _ _ h => ?_
  refine (agree_written h _).bind fun name p₂ q₂ _ _ h => agree_get ?_
  rw [h.isAt]
  split
  · exact agree_failAt h _ _
  · refine (agree_expect h _ _).bind fun _ p₃ q₃ _ _ h => ?_
    exact (agree_expect h _ _).bind fun _ _ _ _ _ h => agree_pure h _

/-- **A statement** takes a token at least. -/
lemma agree_statement (h : p.Peers q)
    (hrule : ∀ p', p.Reaches p' → p.index < p'.index → RulesAgree rule rule' p') :
    Agree 1 (statement rule) (statement rule') p q := by
  refine agree_get ?_
  rw [h.current]
  dsimp only
  split
  · rename_i c hc
    exact (agree_advance_of_ne h (by simp [hc])).bind fun _ _ _ _ _ h => agree_pure h _
  · exact agree_loop h hrule
  · exact agree_branch h hrule
  · exact agree_call h
  · exact agree_fail h _

/-! ### Blocks -/

/-- The loop over the statements of a block, with `more` in the place of what comes after `n`
turns. -/
def repeated (rule : BlockRule) (n : Nat) (more : Parse Block) : Parse Block :=
  (turn [.closeBrace, .endOfFile] (statement rule))^[n] more

/-- The rule for blocks around what reads the statements inside. -/
def inside (body : Parse Block) : BlockRule := fun what line => do
  let p ← get
  if p.cap ≤ p.depth then failOn line (.nestedTooDeeply p.cap)
  else
    nested do
      let b ← body
      if (← get).atEnd then failOn line (.unclosedBlock what)
      else
        let _ ← expect .closeBrace ("The " ++ what ++ " block must be closed with '\x7d'.")
        pure b

/-- The rule for blocks, put into itself `n` times, with `more` in the innermost place. -/
def unfolded (more : Parse Block) : Nat → BlockRule
  | 0 => fun _ _ => more
  | n + 1 => inside (repeated (unfolded more n) n more)

lemma agree_repeated {n : Nat} (h : p.Peers q) (hn : p.visible.length ≤ n)
    (hrule : ∀ p', p.Reaches p' → p.index < p'.index → RulesAgree rule rule' p')
    (more : Parse Block) : Agree 0 (statements rule) (repeated rule' n more) p q := by
  refine agree_get_left (agree_collect (by simp) (fun p' q' hgo h' => agree_statement h' ?_) h
    p.length_visible_le hn more)
  intro p'' hgo' hindex
  exact hrule p'' (hgo.trans hgo') (Nat.lt_of_le_of_lt hgo.index_le hindex)

/-- **Blocks**: what is put into the rule more often than there are tokens in sight is never asked
for. -/
lemma agree_block {room n : Nat} (h : p.Peers q) (hroom : p.room = room)
    (hn : p.visible.length < n) (more : Parse Block) (what : String) (line : Int) :
    Agree 0 (block room what line) (unfolded more n what line) p q := by
  induction n generalizing room p q what line with
  | zero => omega
  | succ n ih =>
    have hcap : q.cap ≤ q.depth ↔ room = 0 := by
      rw [h.cap, h.depth, ← hroom, Parser.room]
      omega
    cases room with
    | zero =>
      refine agree_get ?_
      rw [if_pos (hcap.mpr rfl), h.cap]
      exact agree_failOn h line _
    | succ room =>
      refine agree_get_right ?_
      rw [if_neg (by simp [hcap])]
      refine agree_nested ?_
      have hin := h.map_depth (· + 1)
      refine (agree_repeated hin (Nat.le_of_lt_succ hn) ?_ more).bind fun b p' q' _ _ h' => ?_
      · -- a block inside starts at least one token on, with one block less of room
        intro p' hgo hindex p'' q'' hgo' h' what line
        have hleft : p.index + p.visible.length = p''.index + p''.visible.length :=
          (hgo.trans hgo').length_visible
        have hon : p.index < p''.index := Nat.lt_of_lt_of_le hindex hgo'.index_le
        refine ih h' ?_ (by omega) what line
        rw [(hgo.trans hgo').room]
        simp only [Parser.room] at hroom ⊢
        omega
      · refine agree_get ?_
        unfold Parser.atEnd
        rw [h'.isAt]
        split
        · exact agree_failOn h' line _
        · exact (agree_expect h' _ _).bind fun _ _ _ _ _ h'' => agree_pure h'' _

/-- The rule for blocks at any place, and the rule put into itself. -/
lemma agree_blockHere {n : Nat} (h : p.Peers q) (hn : p.visible.length < n) (more : Parse Block)
    (what : String) (line : Int) :
    Agree 0 (blockHere what line) (unfolded more n what line) p q :=
  agree_get_left (agree_block h rfl hn more what line)

lemma agree_statements {n : Nat} (h : p.Peers q) (hn : p.visible.length ≤ n)
    (more : Parse Block) :
    Agree 0 (statements blockHere) (repeated (unfolded more n) n more) p q := by
  refine agree_repeated h hn (fun p' hgo hindex p'' q'' hgo' h' => ?_) more
  have hleft := (hgo.trans hgo').length_visible
  have hon := hgo'.index_le
  exact agree_blockHere h' (by omega) more

/-- Blocks at any place, whatever stands after the first end of the source. -/
lemma rulesAgree_blockHere (p : Parser) : RulesAgree blockHere blockHere p :=
  fun _ _ _ h' what line =>
    agree_self (fun _ _ _ h hn => agree_blockHere h hn (pure []) what line) h'

/-! ### Top level -/

lemma agree_mainBlock (h : p.Peers q) : Agree 1 mainBlock mainBlock p q := by
  unfold mainBlock
  refine (agree_expect_of_ne h (by decide) _).bind fun start p₁ q₁ _ _ h => ?_
  refine (agree_expect h _ _).bind fun _ p₂ q₂ _ _ h => ?_
  refine (rulesAgree_blockHere p₂ p₂ q₂ (.refl p₂) h _ _).bind ?_
  exact fun body _ _ _ _ h => agree_pure h _

lemma agree_procedure (h : p.Peers q) : Agree 1 procedure procedure p q := by
  unfold procedure
  refine (agree_expect_of_ne h (by decide) _).bind fun start p₁ q₁ _ _ h => ?_
  refine (agree_expect h _ _).bind fun t p₂ q₂ _ _ h => ?_
  refine (agree_written h _).bind fun name p₃ q₃ _ _ h => ?_
  refine (agree_expect h _ _).bind fun _ p₄ q₄ _ _ h => ?_
  refine (agree_expect h _ _).bind fun _ p₅ q₅ _ _ h => ?_
  refine (agree_expect h _ _).bind fun _ p₆ q₆ _ _ h => ?_
  refine (rulesAgree_blockHere p₆ p₆ q₆ (.refl p₆) h _ _).bind ?_
  exact fun body _ _ _ _ h => agree_pure h _

/-- **A declaration** takes a token at least. -/
lemma agree_declaration (h : p.Peers q) (a : Program) :
    Agree 1 (declaration a) (declaration a) p q := by
  refine agree_get ?_
  rw [h.current]
  split
  · split
    · exact agree_fail h _
    · exact (agree_mainBlock h).bind fun _ _ _ _ _ h => agree_pure h _
  · exact (agree_procedure h).bind fun _ _ _ _ _ h => agree_pure h _
  · exact agree_fail h _

/-- One turn of the loop over the declarations of a program, `more` being what comes next. -/
def declarationTurn (more : Program → Parse Program) (a : Program) : Parse Program := do
  if (← get).atEnd then pure a
  else
    let b ← declaration a
    more b

/-- A whole program, with `more` in the place of what comes after `n` turns of its loop. -/
def programUnfolded (more : Program → Parse Program) (n : Nat) : Parse Program := do
  let a ← declarationTurn^[n] more {}
  match a.main with
  | none => fail .missingMain
  | some _ => pure a

lemma declarationTurn_of_atEnd (h : p.atEnd = true) (more : Program → Parse Program)
    (a : Program) : declarationTurn more a p = (.ok a, p) := by
  change (if p.atEnd then pure a else _ : Parse Program) p = _
  rw [if_pos h]
  rfl

lemma declarationTurn_of_not_atEnd (h : p.atEnd = false) (more : Program → Parse Program)
    (a : Program) : declarationTurn more a p = (declaration a >>= more) p := by
  change (if p.atEnd then pure a else _ : Parse Program) p = _
  rw [h]
  rfl

lemma agree_declarations {n m : Nat} (h : p.Peers q) (hn : p.visible.length ≤ n + 1)
    (hm : p.visible.length ≤ m) (more : Program → Parse Program) (a : Program) :
    Agree 0 (declarations a n) (declarationTurn^[m] more a) p q := by
  induction m generalizing p q n a with
  | zero =>
    have := p.length_visible_pos
    omega
  | succ m ih =>
    rw [Function.iterate_succ_apply']
    cases hat : p.atEnd with
    | true =>
      refine (agree_pure h a).of_eq (declarations_of_atEnd hat a n)
        (declarationTurn_of_atEnd ?_ _ a)
      rw [Parser.atEnd, h.isAt, ← Parser.atEnd, hat]
    | false =>
      have hk : p.current.kind ≠ .endOfFile := by
        intro he
        rw [Parser.atEnd, isAt_singleton.mpr he] at hat
        cases hat
      have hlength := h.ends.one_lt_length_visible hk
      obtain ⟨n, rfl⟩ : ∃ i, n = i + 1 := ⟨n - 1, by omega⟩
      refine Agree.of_eq ?_ (declarations_of_not_atEnd hat a n)
        (declarationTurn_of_not_atEnd ?_ _ a)
      · refine ((agree_declaration h a).bind fun b p' q' hgo hindex h' => ?_).weaken
          (Nat.zero_le 1)
        have hleft := hgo.length_visible
        exact ih h' (by omega) (by omega) b
      · rw [Parser.atEnd, h.isAt, ← Parser.atEnd, hat]

/-- **Whole programs** have no more declarations than there are tokens in sight. -/
lemma agree_program {n : Nat} (h : p.Peers q) (hn : p.visible.length ≤ n)
    (more : Program → Parse Program) : Agree 0 program (programUnfolded more n) p q := by
  refine agree_get_left ?_
  refine (agree_declarations h p.length_visible_le hn more {}).bind fun a _ _ _ _ h' => ?_
  cases a.main with
  | none => exact agree_fail h' _
  | some _ => exact agree_pure h' _

end Parse

end Trazo
