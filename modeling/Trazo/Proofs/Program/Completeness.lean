import Trazo.Proofs.Program.Soundness

/-!
What the grammar writes is accepted by the parser, as the tree that was written, if there is room
for it and its counts can be written. A count that cannot be written is the only other fault.

The induction is on how the tokens write the phrase. Whatever follows a statement, it is no `sino`,
so a condition without one is not mistaken for the start of a longer statement.
-/

namespace Trazo.Parse

open Program

variable {p q : Parser} {ts us rest : List Token} {lax : Prop}

/-- What follows does not start with `sino`. -/
def NoElse (rest : List Token) : Prop := ∀ t, rest.head? = some t → t.kind ≠ .keyword .sino

lemma head_of_writes_statement {s : Statement} (h : Writes ts (.statement s)) :
    ∃ t u, ts = t :: u ∧ t.kind ≠ .closeBrace ∧ t.kind ≠ .endOfFile ∧
      t.kind ≠ .keyword .sino := by
  cases h <;> exact ⟨_, _, rfl, by simp [*]⟩

lemma noElse_of_writes_statements {b : Block} (h : Writes us (.statements b))
    (hr : NoElse rest) : NoElse (us ++ rest) := by
  cases h with
  | nil => exact hr
  | cons hs _ =>
    obtain ⟨t, u, rfl, -, -, ht⟩ := head_of_writes_statement hs
    intro t' he
    obtain rfl : t = t' := by simpa using he
    exact ht

/-- The tokens of a phrase make its production return it, whatever comes after. If the reading is
`lax`, there may be counts that cannot be written, and one of them is the fault. -/
def Accepted (lax : Prop) (ts : List Token) : Phrase → Prop
  | .statement s => ∀ {room : Nat} {p : Parser} {rest : List Token}
      {Q : Statement → Parser → Prop} {E : ParseFault → Parser → Prop},
      s.Fits room lax → (lax → ∀ q, E .unwritable q) → p.Ready → p.pending = ts ++ rest →
      NoElse rest → (∀ q, p.Passes ts q → Q s q) → After (statement (block room)) p Q E
  | .statements b => ∀ {room n : Nat} {p : Parser} {r : Token} {rest : List Token}
      {Q : Block → Parser → Prop} {E : ParseFault → Parser → Prop},
      BlockFits (room + 1) b lax → (lax → ∀ q, E .unwritable q) → p.Ready →
      p.pending = ts ++ r :: rest → r.kind = .closeBrace → ts.length ≤ n →
      (∀ q, p.Passes ts q → Q b q) →
      After (collect [.closeBrace, .endOfFile] (statement (block room)) n) p Q E
  | .block b => ∀ {room : Nat} {p : Parser} {rest : List Token} {advice what : String}
      {line : Int} {Q : Block → Parser → Prop} {E : ParseFault → Parser → Prop},
      BlockFits room b lax → (lax → ∀ q, E .unwritable q) → p.Ready → p.pending = ts ++ rest →
      (∀ q, p.Passes ts q → Q b q) →
      After (expect .openBrace advice) p (fun _ q => After (block room what line) q Q E) E
  | .item _ => True

lemma accepted_command {t : Token} {c : Command} (ht : t.kind = .command c) :
    Accepted lax [t] (.statement (.command c t.line)) := by
  intro room p rest Q E _ _ hp h _ hq
  obtain ⟨hc, he⟩ := Parser.current_of_pending h
  have hn := Parser.passes_next hp (hc ▸ he)
  unfold statement
  simp only [after_bind, after_get, hc, ht]
  rw [hc] at hn
  exact hq _ hn

lemma accepted_loop {t n v : Token} {count : Int} {b : Block} (ht : t.kind = .keyword .repetir)
    (hn : n.kind = .number) (hc : n.content = .number count) (hv : v.kind = .keyword .veces)
    (ih : Accepted lax ts (.block b)) :
    Accepted lax (t :: n :: v :: ts) (.statement (.loop count b t.line)) := by
  intro room p rest Q E hd hE hp h _ hq
  have hcur := (Parser.current_of_pending h).1
  unfold statement
  simp only [after_bind, after_get, hcur, ht]
  unfold loop
  simp only [after_bind]
  refine after_expect_of_pending hp h ht fun p1 h1 e1 => ?_
  refine after_expect_of_pending h1.ready e1 hn fun p2 h2 e2 => ?_
  obtain ⟨hcount, hd⟩ := Statement.fits_loop.mp hd
  rw [hc]
  refine after_written_number hcount hE ?_
  refine after_expect_of_pending h2.ready e2 hv fun p3 h3 e3 => ?_
  refine ih hd hE h3.ready e3 fun p4 h4 => ?_
  exact hq p4 (((h1.trans h2).trans h3).trans h4)

lemma after_sensor_of_pending {t : Token} {s : Sensor} {Q : Sensor → Parser → Prop}
    {E : ParseFault → Parser → Prop} (hp : p.Ready) (h : p.pending = t :: rest)
    (hs : t.kind = .sensor s) (hq : ∀ q, p.Passes [t] q → q.pending = rest → Q s q) :
    After sensor p Q E := by
  obtain ⟨hc, he⟩ := Parser.current_of_pending h
  have hn := Parser.passes_next hp (hc ▸ he)
  rw [hc] at hn
  unfold sensor
  simp only [after_bind, after_get, hc, hs]
  exact hq _ hn (hn.rest h)

lemma current_ne_sino (h : NoElse p.pending) : p.current.kind ≠ .keyword .sino := by
  by_cases he : p.current.kind = .endOfFile
  · simp [he]
  · refine h p.current ?_
    unfold Parser.pending
    rw [List.takeWhile_cons_of_pos (by simpa using he)]
    rfl

lemma accepted_branch {t l c r : Token} {s : Sensor} {b : Block} (ht : t.kind = .keyword .si)
    (hl : l.kind = .openParen) (hs : c.kind = .sensor s) (hr : r.kind = .closeParen)
    (ih : Accepted lax ts (.block b)) :
    Accepted lax (t :: l :: c :: r :: ts) (.statement (.branch s b none t.line)) := by
  intro room p rest Q E hd hE hp h hrest hq
  have hcur := (Parser.current_of_pending h).1
  unfold statement
  simp only [after_bind, after_get, hcur, ht]
  unfold branch
  simp only [after_bind]
  refine after_expect_of_pending hp h ht fun p1 h1 e1 => ?_
  refine after_expect_of_pending h1.ready e1 hl fun p2 h2 e2 => ?_
  refine after_sensor_of_pending h2.ready e2 hs fun p3 h3 e3 => ?_
  refine after_expect_of_pending h3.ready e3 hr fun p4 h4 e4 => ?_
  refine ih (Statement.fits_branch.mp hd) hE h4.ready e4 fun p5 h5 => ?_
  -- what follows the block is no `sino`
  have hno : p5.current.kind ≠ .keyword .sino := by
    refine current_ne_sino ?_
    rw [h5.rest e4]
    exact hrest
  rw [after_consumeIf, if_neg hno]
  exact hq p5 ((((h1.trans h2).trans h3).trans h4).trans h5)

lemma accepted_branchElse {t l c r e : Token} {s : Sensor} {b d : Block}
    (ht : t.kind = .keyword .si) (hl : l.kind = .openParen) (hs : c.kind = .sensor s)
    (hr : r.kind = .closeParen) (ih : Accepted lax ts (.block b)) (he : e.kind = .keyword .sino)
    (ih' : Accepted lax us (.block d)) :
    Accepted lax (t :: l :: c :: r :: (ts ++ e :: us))
      (.statement (.branch s b (some d) t.line)) := by
  intro room p rest Q E hd hE hp h _ hq
  have hcur := (Parser.current_of_pending h).1
  obtain ⟨hd, hd'⟩ := Statement.fits_branchElse.mp hd
  simp only [List.cons_append, List.append_assoc] at h
  unfold statement
  simp only [after_bind, after_get, hcur, ht]
  unfold branch
  simp only [after_bind]
  refine after_expect_of_pending hp h ht fun p1 h1 e1 => ?_
  refine after_expect_of_pending h1.ready e1 hl fun p2 h2 e2 => ?_
  refine after_sensor_of_pending h2.ready e2 hs fun p3 h3 e3 => ?_
  refine after_expect_of_pending h3.ready e3 hr fun p4 h4 e4 => ?_
  refine ih hd hE h4.ready e4 fun p5 h5 => ?_
  -- the block is followed by `sino` and another block
  have e5 := h5.rest e4
  obtain ⟨hc, hend⟩ := Parser.current_of_pending e5
  have h6 := Parser.passes_next h5.ready (hc ▸ hend)
  rw [hc] at h6
  rw [after_consumeIf, if_pos (hc ▸ he)]
  simp only [after_bind]
  refine ih' hd' hE h6.ready (h6.rest e5) fun p7 h7 => hq p7 ?_
  simpa using (((((h1.trans h2).trans h3).trans h4).trans h5).trans h6).trans h7

lemma accepted_call {t l r : Token} {name : String} (ht : t.kind = .identifier)
    (hn : t.content = .text name) (hl : l.kind = .openParen) (hr : r.kind = .closeParen) :
    Accepted lax [t, l, r] (.statement (.call name t.line)) := by
  intro room p rest Q E _ _ hp h _ hq
  have hcur := (Parser.current_of_pending h).1
  unfold statement
  simp only [after_bind, after_get, hcur, ht]
  unfold call
  simp only [after_bind, after_get]
  refine after_expect_of_pending hp h ht fun p1 h1 e1 => ?_
  rw [hn, after_written_text]
  -- the parenthesis is there, so the name is not compared with the known words
  have hopen : p1.isAt [.openParen] = true := by
    rw [isAt_singleton, (Parser.current_of_pending e1).1]
    exact hl
  simp only [hopen, Bool.not_true, Bool.false_and, Bool.false_eq_true, if_false, after_bind]
  refine after_expect_of_pending h1.ready e1 hl fun p2 h2 e2 => ?_
  refine after_expect_of_pending h2.ready e2 hr fun p3 h3 e3 => ?_
  exact hq p3 ((h1.trans h2).trans h3)

lemma accepted_nil : Accepted lax [] (.statements []) := by
  intro room n p r rest Q E _ _ hp h hr _ hq
  cases n with
  | zero => exact hq p (.refl hp)
  | succ n =>
    have hstop : p.isAt [.closeBrace, .endOfFile] = true := by
      simp [Parser.isAt, (Parser.current_of_pending h).1, hr]
    unfold collect
    simp only [after_bind, after_get, hstop, if_true]
    exact hq p (.refl hp)

/-- One more statement is read, whatever comes after it. -/
lemma after_collect_cons {s : Statement} {room n k : Nat} {Q : Block → Parser → Prop}
    {E : ParseFault → Parser → Prop} (hs : Writes ts (.statement s))
    (hacc : Accepted lax ts (.statement s)) (hd : s.Fits room lax)
    (hE : lax → ∀ q, E .unwritable q) (hp : p.Ready)
    (h : p.pending = ts ++ rest) (hrest : NoElse rest) (hn : ts.length + k ≤ n)
    (hq : ∀ q m, p.Passes ts q → k ≤ m →
      After (collect [.closeBrace, .endOfFile] (statement (block room)) m) q
        (fun b r => Q (s :: b) r) E) :
    After (collect [.closeBrace, .endOfFile] (statement (block room)) n) p Q E := by
  obtain ⟨t, u, rfl, hclose, hend, -⟩ := head_of_writes_statement hs
  simp only [List.length_cons] at hn
  obtain ⟨n, rfl⟩ := Nat.exists_eq_add_of_lt (show 0 < n by omega)
  rw [Nat.zero_add]
  have hgo : p.isAt [.closeBrace, .endOfFile] = false := by
    simp [Parser.isAt, (Parser.current_of_pending h).1, hclose, hend]
  unfold collect
  simp only [after_bind, after_get, hgo, Bool.false_eq_true, if_false]
  exact hacc hd hE hp h hrest fun q h1 => hq q n h1 (by omega)

lemma accepted_cons {s : Statement} {b : Block} (hs : Writes ts (.statement s))
    (hb : Writes us (.statements b)) (ih : Accepted lax ts (.statement s))
    (ih' : Accepted lax us (.statements b)) : Accepted lax (ts ++ us) (.statements (s :: b)) := by
  intro room n p r rest Q E hd hE hp h hr hn hq
  obtain ⟨hd, hd'⟩ := blockFits_cons.mp hd
  rw [List.append_assoc] at h
  rw [List.length_append] at hn
  have hno : NoElse (us ++ r :: rest) := by
    refine noElse_of_writes_statements hb fun t' he => ?_
    obtain rfl : r = t' := by simpa using he
    simp [hr]
  refine after_collect_cons hs ih hd hE hp h hno hn fun p1 m h1 hm => ?_
  refine ih' hd' hE h1.ready (h1.rest h) hr hm fun p2 h2 => ?_
  exact hq p2 (h1.trans h2)

lemma accepted_block {l r : Token} {b : Block} (hl : l.kind = .openBrace)
    (hr : r.kind = .closeBrace) (ih : Accepted lax ts (.statements b)) :
    Accepted lax (l :: (ts ++ [r])) (.block b) := by
  intro room p rest advice what line Q E hd hE hp h hq
  obtain ⟨room, rfl⟩ := Nat.exists_eq_succ_of_ne_zero (show room ≠ 0 by have := hd.1; omega)
  simp only [List.cons_append, List.append_assoc, List.nil_append] at h
  refine after_expect_of_pending hp h hl fun p1 h1 e1 => ?_
  simp only [block, after_nested, after_bind, statements, after_get]
  have hin : ({ p1 with depth := p1.depth + 1 } : Parser).Ready := Parser.ready_depth h1.ready _
  have hlen : ts.length ≤ p1.ahead.length := by
    have := Parser.length_pending_le h1.ready
    rw [e1] at this
    simp only [List.length_append] at this
    omega
  refine ih hd (fun hlax _ => hE hlax _) hin e1 hr hlen fun p2 h2 => ?_
  have e2 := h2.rest e1
  have hnot : p2.atEnd = false := by
    simp [Parser.atEnd, Parser.isAt, (Parser.current_of_pending e2).1, hr]
  simp only [hnot, Bool.false_eq_true, if_false, after_bind]
  refine after_expect_of_pending h2.ready e2 hr fun p3 h3 _ => ?_
  exact hq _ (h1.trans (h2.trans h3).of_nested)

/-- **Statements and blocks**: the induction is on how the tokens write the phrase. -/
theorem accepted_of_writes {f : Phrase} (h : Writes ts f) : Accepted lax ts f := by
  induction h with
  | command ht => exact accepted_command ht
  | loop ht hn hc hv _ ih => exact accepted_loop ht hn hc hv ih
  | branch ht hl hq hr _ ih => exact accepted_branch ht hl hq hr ih
  | branchElse ht hl hq hr _ he _ ih ih' => exact accepted_branchElse ht hl hq hr ih he ih'
  | call ht hn hl hr => exact accepted_call ht hn hl hr
  | nil => exact accepted_nil
  | cons hs hb ih ih' => exact accepted_cons hs hb ih ih'
  | block hl _ hr ih => exact accepted_block hl hr ih
  | main => trivial
  | procedure => trivial

/-! ### Top level -/

/-- After an opening brace there is as much room as before it. -/
lemma after_blockHere {advice what : String} {line : Int} {Q : Block → Parser → Prop}
    {E : ParseFault → Parser → Prop}
    (h : After (expect .openBrace advice) p (fun _ q => After (block p.room what line) q Q E) E) :
    After (expect .openBrace advice) p (fun _ q => After (blockHere what line) q Q E) E := by
  rw [after_expect_iff] at h ⊢
  split_ifs at h ⊢
  · unfold blockHere
    rw [after_bind, after_get, Parser.room_next]
    exact h
  · exact h

/-- A block at the top level, read from its opening brace on. -/
lemma after_blockHere_of_pending {b : Block} {advice what : String} {line : Int}
    {Q : Block → Parser → Prop} {E : ParseFault → Parser → Prop} (hb : Writes ts (.block b))
    (hd : BlockFits p.room b lax) (hE : lax → ∀ q, E .unwritable q) (hp : p.Ready)
    (h : p.pending = ts ++ rest)
    (hq : ∀ q, p.Passes ts q → Q b q) :
    After (expect .openBrace advice) p (fun _ q => After (blockHere what line) q Q E) E :=
  after_blockHere (accepted_of_writes hb hd hE hp h hq)

/-- The production for the items of a program returns the item that is written. -/
lemma after_declaration_of_pending {a : Program} {i : Item} {Q : Program → Parser → Prop}
    {E : ParseFault → Parser → Prop} (hi : Writes ts (.item i))
    (hd : BlockFits p.room i.body lax) (hE : lax → ∀ q, E .unwritable q)
    (hone : i.main?.isSome → a.main = none) (hp : p.Ready)
    (h : p.pending = ts ++ rest) (hq : ∀ b q, p.Passes ts q → Adds a [i] b → Q b q) :
    After (declaration a) p Q E := by
  unfold declaration
  simp only [after_bind, after_get]
  cases hi with
  | main ht hb =>
    have hcur := (Parser.current_of_pending h).1
    have hm : a.main = none := hone rfl
    simp only [hcur, ht, hm, after_bind]
    unfold mainBlock
    simp only [after_bind]
    refine after_expect_of_pending hp h ht fun p1 h1 e1 => ?_
    refine after_blockHere_of_pending hb (h1.room ▸ hd) hE h1.ready e1 fun p2 h2 => ?_
    exact hq _ p2 (h1.trans h2) ⟨by simp [hm, Item.main?], by simp [Item.procedure?]⟩
  | procedure ht hn hc hl hr hb =>
    have hcur := (Parser.current_of_pending h).1
    simp only [hcur, ht, after_bind]
    unfold procedure
    simp only [after_bind]
    refine after_expect_of_pending hp h ht fun p1 h1 e1 => ?_
    refine after_expect_of_pending h1.ready e1 hn fun p2 h2 e2 => ?_
    rw [hc, after_written_text]
    refine after_expect_of_pending h2.ready e2 hl fun p3 h3 e3 => ?_
    refine after_expect_of_pending h3.ready e3 hr fun p4 h4 e4 => ?_
    have h5 := ((h1.trans h2).trans h3).trans h4
    refine after_blockHere_of_pending hb (h5.room ▸ hd) hE h4.ready e4 fun p6 h6 => ?_
    exact hq _ p6 (h5.trans h6) ⟨by simp [Item.main?], by simp [Item.procedure?]⟩

/-- With at most one main block there is none before another. -/
lemma main_eq_none {a : Program} {i : Item} {is : List Item}
    (hone : (a.main.toList ++ (i :: is).filterMap Item.main?).length ≤ 1)
    (hi : i.main?.isSome) : a.main = none := by
  obtain ⟨m, hm⟩ := Option.isSome_iff_exists.mp hi
  cases ha : a.main with
  | none => rfl
  | some m' =>
    rw [ha, List.filterMap_cons_some hm] at hone
    simp at hone

/-- All items are read when there is at most one main block, the one there may be already
counted. -/
lemma after_declarations_of_pending {is : List Item} (h : WritesItems ts is) {n : Nat}
    {a : Program} {Q : Program → Parser → Prop} {E : ParseFault → Parser → Prop}
    (hd : ∀ i ∈ is, BlockFits p.room i.body lax) (hE : lax → ∀ q, E .unwritable q)
    (hone : (a.main.toList ++ is.filterMap Item.main?).length ≤ 1) (hp : p.Ready)
    (hpend : p.pending = ts) (hn : ts.length ≤ n) (hq : ∀ b q, Adds a is b → Q b q) :
    After (declarations a n) p Q E := by
  induction h generalizing p a n with
  | nil =>
    cases n with
    | zero => exact hq a p (.nil a)
    | succ n =>
      have hend : p.atEnd = true := isAt_singleton.mpr (Parser.pending_eq_nil_iff.mp hpend)
      unfold declarations
      simp only [after_bind, after_get, hend, if_true]
      exact hq a p (.nil a)
  | @cons ts us i is hi hs ih =>
    have hpos := length_pos_of_writes_item hi
    rw [List.length_append] at hn
    obtain ⟨n, rfl⟩ := Nat.exists_eq_add_of_lt (show 0 < n by omega)
    rw [Nat.zero_add]
    have hgo : p.atEnd = false := by
      rw [← Bool.not_eq_true]
      intro hend
      rw [Parser.pending_eq_nil_iff.mpr (isAt_singleton.mp hend)] at hpend
      have := congrArg List.length hpend
      simp only [List.length_nil, List.length_append] at this
      omega
    unfold declarations
    simp only [after_bind, after_get, hgo, Bool.false_eq_true, if_false]
    refine after_declaration_of_pending hi (hd i (by simp)) hE (main_eq_none hone) hp hpend
      fun b q h1 hb => ?_
    refine ih ?_ ?_ h1.ready (h1.rest hpend) (by omega) fun c r hc => hq c r (hb.cons hc)
    · intro j hj
      rw [h1.room]
      exact hd j (by simp [hj])
    · rw [hb.main, List.append_assoc, ← List.filterMap_append]
      exact hone

/-- **Completeness**: the program that the tokens write is returned, if there is room for it and its
counts can be written. A `lax` reading may also end at one that cannot. -/
theorem program_complete {r : Program} {Q : Program → Parser → Prop}
    {E : ParseFault → Parser → Prop} (hp : p.Ready) (h : Written p.pending r)
    (hd : ∀ b ∈ r.blocks, BlockFits p.room b lax) (hE : lax → ∀ q, E .unwritable q)
    (hq : ∀ q, Q r q) :
    After program p Q E := by
  obtain ⟨is, m, his, hm, rfl⟩ := h
  have hdepth : ∀ i ∈ is, BlockFits p.room i.body lax := by
    intro i hi
    exact hd _ ((mem_blocks_iff (by simp [hm]) rfl).mpr ⟨i, hi, rfl⟩)
  unfold program
  simp only [after_bind, after_get]
  refine after_declarations_of_pending his hdepth hE (by simp [hm]) hp rfl
    (Parser.length_pending_le hp) fun b q hb => ?_
  obtain ⟨main, procedures⟩ := b
  obtain rfl : main = some m := by simpa [hm] using hb.main
  obtain rfl : procedures = is.filterMap Item.procedure? := by simpa using hb.procedures
  exact hq q

end Trazo.Parse
