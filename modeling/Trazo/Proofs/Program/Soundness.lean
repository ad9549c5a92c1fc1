import Trazo.Proofs.Program.Production

/-!
What the parser accepts is written by the grammar, and its faults are faults of the grammar or
integers that cannot be written.

Each production is followed token by token; the tokens it has passed write its value, and the
blocks in it nest no deeper than there was room for.
-/

namespace Trazo.Parse

open Program

variable {p : Parser} {rule : BlockRule} {room : Nat}

/-- A production for the rest of a block, after its opening brace. -/
def SoundAt (x : Parse Block) (p : Parser) (room : Nat) : Prop :=
  After x p (fun b q => ∃ ts r, Writes ts (.statements b) ∧ r.kind = .closeBrace ∧
    p.Passes (ts ++ [r]) q ∧ BlockFits room b) Refused

def Sound (rule : BlockRule) (room : Nat) : Prop :=
  ∀ what line p, p.Ready → SoundAt (rule what line) p room

/-- A whole block, read from its opening brace on. -/
lemma after_braced {advice what : String} {line : Int} {Q : Block → Parser → Prop}
    (hp : p.Ready) (hrule : ∀ q, p.Passes [p.current] q → SoundAt (rule what line) q room)
    (hq : ∀ b ts q, Writes ts (.block b) → p.Passes ts q → BlockFits room b → Q b q) :
    After (expect .openBrace advice) p (fun _ q => After (rule what line) q Q Refused)
      Refused := by
  refine after_expect hp (by decide) fun hl h1 => ?_
  refine (hrule _ h1).mono ?_ fun _ _ he => he
  rintro b q ⟨ts, r, hb, hr, h2, hd⟩
  exact hq b _ q (.block hl hb hr) (h1.trans h2) hd

lemma loop_sound (hrule : Sound rule room) (hp : p.Ready) :
    After (loop rule) p (fun s q => ∃ ts, Writes ts (.statement s) ∧ p.Passes ts q ∧
      s.Fits room) Refused := by
  unfold loop
  simp only [after_bind]
  refine after_expect hp (by decide) fun ht h1 => ?_
  refine after_expect h1.ready (by decide) fun hn h2 => ?_
  refine after_written_of fun hw => ?_
  refine after_expect h2.ready (by decide) fun hv h3 => ?_
  refine after_braced h3.ready (fun q h => hrule _ _ q h.ready) fun b ts q hb h4 hd => ?_
  obtain ⟨count, hc⟩ := (Parser.current_valued h1.ready).2 hn
  rw [hc] at hw ⊢
  refine ⟨_, .loop ht hn hc hv hb, ((h1.trans h2).trans h3).trans h4, ?_⟩
  exact Statement.fits_loop.mpr ⟨.inr (by simpa [Token.Content.numbers] using hw), hd⟩

lemma sensor_sound {Q : Sensor → Parser → Prop} (hp : p.Ready)
    (hq : ∀ s, p.current.kind = .sensor s → p.Passes [p.current] p.next → Q s p.next) :
    After sensor p Q Refused := by
  unfold sensor
  simp only [after_bind, after_get]
  split
  · rename_i s hs
    exact hq s hs (Parser.passes_next hp (by simp [hs]))
  · exact after_fail

lemma branch_sound (hrule : Sound rule room) (hp : p.Ready) :
    After (branch rule) p (fun s q => ∃ ts, Writes ts (.statement s) ∧ p.Passes ts q ∧
      s.Fits room) Refused := by
  unfold branch
  simp only [after_bind]
  refine after_expect hp (by decide) fun ht h1 => ?_
  refine after_expect h1.ready (by decide) fun hl h2 => ?_
  refine sensor_sound h2.ready fun s hs h3 => ?_
  refine after_expect h3.ready (by decide) fun hr h4 => ?_
  refine after_braced h4.ready (fun q h => hrule _ _ q h.ready) fun b ts q hb h5 hd => ?_
  have h := (((h1.trans h2).trans h3).trans h4).trans h5
  rw [after_consumeIf]
  split_ifs with he
  · have h6 := Parser.passes_next h5.ready (by simp [he])
    simp only [after_bind]
    refine after_braced h6.ready (fun q h => hrule _ _ q h.ready) fun c us q' hc h7 hd' => ?_
    refine ⟨_, .branchElse ht hl hs hr hb he hc, ?_, ?_⟩
    · simpa using (h.trans h6).trans h7
    · exact Statement.fits_branchElse.mpr ⟨hd, hd'⟩
  · exact ⟨_, .branch ht hl hs hr hb, h, hd⟩

lemma call_sound (hp : p.Ready) :
    After call p (fun s q => ∃ ts, Writes ts (.statement s) ∧ p.Passes ts q ∧
      s.Fits room) Refused := by
  unfold call
  simp only [after_bind, after_get]
  refine after_expect hp (by decide) fun ht h1 => ?_
  refine after_written_of fun _ => ?_
  split_ifs
  · exact after_failAt
  · simp only [after_bind]
    refine after_expect h1.ready (by decide) fun hl h2 => ?_
    refine after_expect h2.ready (by decide) fun hr h3 => ?_
    obtain ⟨name, hn⟩ := (Parser.current_valued hp).1 ht
    refine ⟨_, ?_, (h1.trans h2).trans h3, ?_⟩
    · rw [hn]
      exact .call ht hn hl hr
    · exact Statement.fits_call

lemma statement_sound (hrule : Sound rule room) (hp : p.Ready) :
    After (statement rule) p (fun s q => ∃ ts, Writes ts (.statement s) ∧ p.Passes ts q ∧
      s.Fits room) Refused := by
  unfold statement
  simp only [after_bind, after_get]
  split
  · rename_i c hc
    have h := Parser.passes_next hp (by simp [hc])
    exact ⟨_, .command hc, h, Statement.fits_command⟩
  · exact loop_sound hrule hp
  · exact branch_sound hrule hp
  · exact call_sound hp
  · exact after_fail

/-- However often it may repeat, the tokens passed write the statements collected. -/
lemma collect_sound (hrule : Sound rule room) (stop : List Token.Kind) (n : Nat) (hp : p.Ready) :
    After (collect stop (statement rule) n) p (fun b q => ∃ ts, Writes ts (.statements b) ∧
      p.Passes ts q ∧ BlockFits (room + 1) b) Refused := by
  induction n generalizing p with
  | zero => exact ⟨[], .nil, .refl hp, blockFits_nil⟩
  | succ n ih =>
    unfold collect
    simp only [after_bind, after_get]
    split_ifs
    · exact ⟨[], .nil, .refl hp, blockFits_nil⟩
    · simp only [after_bind]
      refine (statement_sound hrule hp).mono ?_ fun _ _ he => he
      rintro s q ⟨ts, hs, h1, hd⟩
      refine (ih h1.ready).mono ?_ fun _ _ he => he
      rintro b q' ⟨us, hb, h2, hd'⟩
      exact ⟨ts ++ us, .cons hs hb, h1.trans h2, blockFits_cons.mpr ⟨hd, hd'⟩⟩

/-- **Blocks**: the recursion follows the room that is left. -/
theorem block_sound (room : Nat) : Sound (block room) room := by
  induction room with
  | zero =>
    intro what line p hp
    simp only [SoundAt, block, after_bind, after_get]
    exact after_failOn
  | succ room ih =>
    intro what line p hp
    simp only [SoundAt, block, after_nested, after_bind, statements, after_get]
    refine (collect_sound ih _ _ (Parser.ready_depth hp _)).mono ?_ fun _ _ he => he
    rintro b q ⟨ts, hb, h1, hd⟩
    split_ifs
    · exact after_failOn
    · simp only [after_bind]
      refine after_expect h1.ready (by decide) fun hr h2 => ?_
      exact ⟨ts, _, hb, hr, (h1.trans h2).of_nested, hd⟩

/-! ### Top level -/

lemma blockHere_sound {what : String} {line : Int} {q : Parser} {ts : List Token}
    (h : p.Passes ts q) : SoundAt (blockHere what line) q p.room := by
  simp only [SoundAt, blockHere, after_bind, after_get]
  rw [← h.room]
  exact block_sound q.room what line q h.ready

lemma mainBlock_sound (hp : p.Ready) :
    After mainBlock p (fun m q => ∃ ts, Writes ts (.item (.main m)) ∧ p.Passes ts q ∧
      BlockFits p.room m.body) Refused := by
  unfold mainBlock
  simp only [after_bind]
  refine after_expect hp (by decide) fun ht h1 => ?_
  refine after_braced h1.ready (fun q h => blockHere_sound (h1.trans h)) fun b ts q hb h2 hd => ?_
  exact ⟨_, .main ht hb, h1.trans h2, hd⟩

lemma procedure_sound (hp : p.Ready) :
    After procedure p (fun d q => ∃ ts, Writes ts (.item (.procedure d)) ∧ p.Passes ts q ∧
      BlockFits p.room d.body) Refused := by
  unfold procedure
  simp only [after_bind]
  refine after_expect hp (by decide) fun ht h1 => ?_
  refine after_expect h1.ready (by decide) fun hn h2 => ?_
  refine after_written_of fun _ => ?_
  refine after_expect h2.ready (by decide) fun hl h3 => ?_
  refine after_expect h3.ready (by decide) fun hr h4 => ?_
  have h := ((h1.trans h2).trans h3).trans h4
  refine after_braced h4.ready (fun q h' => blockHere_sound (h.trans h')) fun b ts q hb h5 hd => ?_
  obtain ⟨name, hc⟩ := (Parser.current_valued h1.ready).1 hn
  refine ⟨_, ?_, h.trans h5, hd⟩
  rw [hc]
  exact .procedure ht hn hc hl hr hb

/-- The program `r` is `p` with the items added at its end. -/
structure Adds (p : Program) (is : List Item) (r : Program) : Prop where
  main : r.main.toList = p.main.toList ++ is.filterMap Item.main?
  procedures : r.procedures = p.procedures ++ is.filterMap Item.procedure?

lemma Adds.nil (p : Program) : Adds p [] p := ⟨by simp, by simp⟩

lemma Adds.cons {a b c : Program} {i : Item} {is : List Item} (h : Adds a [i] b)
    (h' : Adds b is c) : Adds a (i :: is) c where
  main := by
    rw [h'.main, h.main, List.append_assoc, ← List.filterMap_append]
    rfl
  procedures := by
    rw [h'.procedures, h.procedures, List.append_assoc, ← List.filterMap_append]
    rfl

lemma declaration_sound (a : Program) (hp : p.Ready) :
    After (declaration a) p (fun b q => ∃ i ts, Writes ts (.item i) ∧ p.Passes ts q ∧
      BlockFits p.room i.body ∧ Adds a [i] b) Refused := by
  unfold declaration
  simp only [after_bind, after_get]
  split
  · cases hm : a.main with
    | some m => exact after_fail
    | none =>
      simp only [after_bind]
      refine (mainBlock_sound hp).mono ?_ fun _ _ he => he
      rintro m q ⟨ts, hw, h, hd⟩
      exact ⟨.main m, ts, hw, h, hd, by simp [hm, Item.main?], by simp [Item.procedure?]⟩
  · simp only [after_bind]
    refine (procedure_sound hp).mono ?_ fun _ _ he => he
    rintro d q ⟨ts, hw, h, hd⟩
    exact ⟨.procedure d, ts, hw, h, hd, by simp [Item.main?], by simp [Item.procedure?]⟩
  · exact after_fail

lemma length_pos_of_writes_item {ts : List Token} {i : Item} (h : Writes ts (.item i)) :
    0 < ts.length := by
  cases h <;> simp

/-- With enough repetitions allowed, all tokens are read. -/
lemma declarations_sound (n : Nat) (a : Program) (hp : p.Ready) (hn : p.pending.length ≤ n) :
    After (declarations a n) p (fun b _ => ∃ is, WritesItems p.pending is ∧
      (∀ i ∈ is, BlockFits p.room i.body) ∧ Adds a is b) Refused := by
  induction n generalizing p a with
  | zero =>
    have h0 : p.pending = [] := List.length_eq_zero_iff.mp (by omega)
    rw [h0]
    exact ⟨[], .nil, by simp, .nil a⟩
  | succ n ih =>
    unfold declarations
    simp only [after_bind, after_get]
    split_ifs with hend
    · have h0 : p.pending = [] := Parser.pending_eq_nil_iff.mpr (isAt_singleton.mp hend)
      rw [h0]
      exact ⟨[], .nil, by simp, .nil a⟩
    · simp only [after_bind]
      refine (declaration_sound a hp).mono ?_ fun _ _ he => he
      rintro b q ⟨i, ts, hi, h, hd, hb⟩
      have hlen : q.pending.length ≤ n := by
        have h1 := congrArg List.length h.pending
        have h2 := length_pos_of_writes_item hi
        simp only [List.length_append] at h1
        omega
      refine (ih b h.ready hlen).mono ?_ fun _ _ he => he
      rintro c _ ⟨is, his, hds, hc⟩
      rw [h.pending]
      refine ⟨i :: is, .cons hi his, ?_, hb.cons hc⟩
      intro j hj
      rcases List.mem_cons.mp hj with rfl | hj
      · exact hd
      · exact h.room ▸ hds j hj

/-- **Soundness**: a program that is returned is written by the tokens, nests within the room there
was, and has no count that cannot be written. -/
theorem program_sound (hp : p.Ready) :
    After program p (fun r _ => Written p.pending r ∧
      ∀ b ∈ r.blocks, BlockFits p.room b) Refused := by
  unfold program
  simp only [after_bind, after_get]
  refine (declarations_sound _ {} hp (Parser.length_pending_le hp)).mono ?_ fun _ _ he => he
  rintro r q ⟨is, his, hds, hr⟩
  cases hm : r.main with
  | none => exact after_fail
  | some m =>
    have h1 : is.filterMap Item.main? = [m] := by simpa [hm] using hr.main.symm
    have h2 : r.procedures = is.filterMap Item.procedure? := by simpa using hr.procedures
    refine ⟨⟨is, m, his, h1, ?_⟩, ?_⟩
    · rw [← hm, ← h2]
    · intro b hb
      obtain ⟨i, hi, rfl⟩ := (mem_blocks_iff (by rw [hm, h1]; rfl) h2).mp hb
      exact hds i hi

end Trazo.Parse
