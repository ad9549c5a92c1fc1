import Trazo.Failure
import Trazo.Proofs.Program.Language
import Trazo.Proofs.Program.Rendering

/-!
Programs that have a text, and programs that a text gives: they are the same, up to lines.

Tokens of a text hold names and numbers within the limit, so a program that they write can be
written again. The other way round, the tokens of a rendering write the program itself.
-/

namespace Trazo

open Lexer

variable {limit : Nat} {source : String} {tokens ts : List Token} {t : Token}

/-! ### Tokens of a text -/

/-- An identifier holds a name, and a number holds one within the limit, which can be written. All
other tokens hold no number. -/
structure Token.Within (limit : Nat) (t : Token) : Prop where
  name : t.kind = .identifier → ∃ s, t.content = .text s ∧ isName s = true
  number : t.kind = .number →
    Text.Integer.isWritable limit = true ∧ ∃ n : Nat, t.content = .number n ∧ n ≤ limit
  other : t.kind ≠ .number → t.content.numbers = []

lemma Token.Within.valued (h : t.Within limit) : t.Valued :=
  ⟨fun hk => (h.name hk).imp fun _ hs => hs.1, fun hk => by
    obtain ⟨-, n, hn, -⟩ := h.number hk
    exact ⟨n, hn⟩⟩

lemma Token.Within.mem_writable (h : t.Within limit) :
    ∀ n ∈ t.content.numbers, n ∈ Program.writable := by
  intro n hn
  by_cases hk : t.kind = .number
  · obtain ⟨hl, m, hm, hle⟩ := h.number hk
    rw [hm] at hn
    obtain rfl := List.mem_singleton.mp hn
    exact Text.Integer.isWritable_of_le hle hl
  · simp [h.other hk] at hn

/-- A word that names a kind is no number, and a name when it is an identifier. -/
lemma within_of_word {s : List Char} {k : Token.Kind} {line column : Int}
    (hs : isWord s = true) (hk : k.Names (String.ofList s)) :
    (⟨k, .text (String.ofList s), line, column⟩ : Token).Within limit where
  name := by
    rintro rfl
    exact ⟨_, rfl, isName_iff.mpr ⟨by rwa [String.toList_ofList], hk⟩⟩
  number := by
    rintro rfl
    simp [Token.Kind.Names, Token.Kind.word?] at hk
  other _ := rfl

lemma within_of_lexeme {s rest : List Char} {k : Token.Kind} {content : Token.Content}
    (h : Lexeme limit rest s k content) (line column : Int) :
    (⟨k, content, line, column⟩ : Token).Within limit := by
  cases h with
  | sign hk =>
    unfold Token.Kind.ofPunctuation? at hk
    split at hk <;> cases hk <;> exact ⟨by simp, by simp, fun _ => rfl⟩
  | number _ _ _ hl hv => exact ⟨by simp, fun _ => ⟨hl, _, rfl, hv⟩, by simp⟩
  | word hc hw _ _ hk => exact within_of_word (isWord_iff.mpr ⟨_, _, hc, hw, .inl rfl⟩) hk
  | question hc hw hk => exact within_of_word (isWord_iff.mpr ⟨_, _, hc, hw, .inr rfl⟩) hk

lemma within_tokensBehind {text rest : List Char} {segments : List Segment}
    (h : Splits limit text segments rest) (before : List Char) :
    ∀ t ∈ tokensBehind before segments, t.kind ≠ .endOfFile ∧ t.Within limit := by
  induction h generalizing before with
  | nil => simp [tokensBehind]
  | cons _ hs _ ih =>
    intro t ht
    rcases List.mem_cons.mp ht with rfl | ht
    · exact ⟨hs.kind_ne_endOfFile, within_of_lexeme hs _ _⟩
    · exact ih _ t ht

namespace Program

lemma effective_append (h : ∀ u ∈ ts, u.kind ≠ .endOfFile) (ht : t.kind = .endOfFile) :
    effective (ts ++ [t]) = ts := by
  unfold effective
  rw [List.takeWhile_append_of_pos (by simpa using h)]
  simp [ht]

lemma within_of_tokenize (h : tokenize source limit = .ok tokens) :
    ∀ t ∈ tokens, t.Within limit := by
  obtain ⟨d, hd, rfl⟩ := exists_covers_of_tokenize h
  intro t ht
  rcases List.mem_append.mp ht with ht | ht
  · exact (within_tokensBehind hd.splits [] t ht).2
  · obtain rfl := List.mem_singleton.mp ht
    exact ⟨by simp, by simp, fun _ => rfl⟩

/-- The tokens of a text are ready to be parsed. -/
lemma ended_of_tokenize (h : tokenize source limit = .ok tokens) : Ended tokens := by
  refine ⟨?_, fun t ht => (within_of_tokenize h t ht).valued⟩
  obtain ⟨d, -, rfl⟩ := exists_covers_of_tokenize h
  simp [Decomposition.tokens]

/-! ### From programs to texts -/

variable {cap : Int} {p : Program} {k : Nat}

lemma filterMap_main_items : (p.items k).filterMap Item.main? = p.main.toList := by
  have hmain : Item.main? ∘ Item.main = some := rfl
  have hprocedure : Item.main? ∘ Item.procedure = fun _ => none := rfl
  simp only [items, List.filterMap_append, List.filterMap_map, hmain, hprocedure]
  simp

lemma filterMap_procedure_items : (p.items k).filterMap Item.procedure? = p.procedures := by
  have hmain : Item.procedure? ∘ Item.main = fun _ => none := rfl
  have hprocedure : Item.procedure? ∘ Item.procedure = some := rfl
  simp only [items, List.filterMap_append, List.filterMap_map, hmain, hprocedure]
  simp

lemma filterMap_main_unlined (is : List Item) :
    (is.map Item.unlined).filterMap Item.main? =
      (is.filterMap Item.main?).map MainBlock.unlined := by
  rw [List.filterMap_map, List.map_filterMap]
  congr 1
  funext i
  cases i <;> rfl

lemma filterMap_procedure_unlined (is : List Item) :
    (is.map Item.unlined).filterMap Item.procedure? =
      (is.filterMap Item.procedure?).map Procedure.unlined := by
  rw [List.filterMap_map, List.map_filterMap]
  congr 1
  funext i
  cases i <;> rfl

lemma blocks_unlined (p : Program) : p.unlined.blocks = p.blocks.map blockUnlined := by
  cases hm : p.main <;>
    simp [blocks, unlined, hm, Function.comp_def, MainBlock.unlined, Procedure.unlined]

lemma nestsWithin_unlined : p.unlined.NestsWithin cap ↔ p.NestsWithin cap := by
  simp [NestsWithin, blocks_unlined, blockNesting_unlined]

lemma Writable.of_mem_items {counts : Int → Bool} (hp : p.Writable counts cap) :
    ∀ i ∈ p.items k, i.writable counts = true := by
  intro i hi
  have hbody : blockWritable counts i.body = true :=
    hp.blocks _ ((mem_blocks_iff filterMap_main_items.symm filterMap_procedure_items.symm).mpr
      ⟨i, hi, rfl⟩)
  cases i with
  | main m => exact hbody
  | procedure q =>
    have hq : q ∈ p.procedures := by
      rw [← filterMap_procedure_items]
      exact List.mem_filterMap.mpr ⟨_, hi, rfl⟩
    exact Bool.and_eq_true_iff.mpr ⟨hp.names q hq, hbody⟩

/-- Items that differ from those of a program in lines only make it up, but for lines. -/
lemma exists_written_of_items (hmain : p.main.isSome) {is : List Item} (h : WritesItems ts is)
    (his : is.map Item.unlined = (p.items k).map Item.unlined) :
    ∃ q, Written ts q ∧ q.unlined = p.unlined := by
  obtain ⟨m, hm⟩ := Option.isSome_iff_exists.mp hmain
  have hmains : (is.filterMap Item.main?).map MainBlock.unlined = [m.unlined] := by
    rw [← filterMap_main_unlined, his, filterMap_main_unlined, filterMap_main_items, hm]
    rfl
  have hprocedures : (is.filterMap Item.procedure?).map Procedure.unlined =
      p.procedures.map Procedure.unlined := by
    rw [← filterMap_procedure_unlined, his, filterMap_procedure_unlined, filterMap_procedure_items]
  obtain ⟨m', hm', he⟩ := List.map_eq_singleton_iff.mp hmains
  refine ⟨_, ⟨is, m', h, hm', rfl⟩, ?_⟩
  simp [unlined, hm, he, hprocedures]

/-- The rendering of a program is read as it, but for lines. -/
lemma exists_ofSource_render {cap : Nat} (hp : p.Writable (readable limit) cap) (k : Nat) :
    ∃ q, ofSource (p.render k) limit cap = .ok q ∧ q.unlined = p.unlined := by
  have hitems : ∀ i ∈ p.items k, i.writable (readable limit) = true := hp.of_mem_items
  obtain ⟨ts, t, htokens, hreads, ht⟩ := exists_tokenize_intercalate (spelled_items hitems)
  obtain ⟨is, his, he⟩ := exists_writesItems hitems hreads
  obtain ⟨q, hq, hlines⟩ := exists_written_of_items hp.main his he
  have hnests : q.NestsWithin cap := by
    rw [← nestsWithin_unlined, hlines, nestsWithin_unlined]
    exact hp.nesting
  have hwithin : ∀ u ∈ ts, u.Within limit := fun u hu =>
    within_of_tokenize htokens u (List.mem_append_left _ hu)
  have hparse : ofTokens (ts ++ [t]) cap = .ok q := by
    refine ofTokens_of_written (ended_of_tokenize htokens) ?_ hnests ?_
    · rwa [effective_append (kind_of_mem_reads hreads) ht]
    · exact hq.countable_iff.mpr fun u hu _ => (hwithin u hu).mem_writable
  exact ⟨q, by simp [ofSource, render, htokens, hparse, Except.mapError], hlines⟩

/-! ### From texts to programs -/

/-- Whether what a production writes can be written again. -/
def Phrase.writable (counts : Int → Bool) : Phrase → Bool
  | .statement s => s.writable counts
  | .statements b => blockWritable counts b
  | .block b => blockWritable counts b
  | .item i => i.writable counts

/-- Names and counts come from tokens, so they are within the limit when those are. -/
lemma writable_of_writes {x : Phrase} (h : Writes ts x) (hts : ∀ t ∈ ts, t.Within limit) :
    x.writable (readable limit) = true := by
  induction h with
  | command | nil => rfl
  | @loop t n v count ts b ht hn hc hv hb ih =>
    obtain ⟨hl, m, hm, hle⟩ := (hts n (by simp)).number hn
    obtain rfl : count = m := by simpa [hc] using hm
    have hread : readable limit m = true := by simp [readable, upTo, hl, hle]
    simp only [Phrase.writable, Statement.writable, Bool.and_eq_true]
    exact ⟨hread, ih fun u hu => hts u (by simp [hu])⟩
  | branch _ _ _ _ _ ih => exact ih fun u hu => hts u (by simp [hu])
  | branchElse _ _ _ _ _ _ _ ih ih' =>
    simp only [Phrase.writable, Statement.writable, Bool.and_eq_true]
    exact ⟨ih fun u hu => hts u (by simp [hu]), ih' fun u hu => hts u (by simp [hu])⟩
  | @call t l r name ht hn _ _ =>
    obtain ⟨s, hs, hname⟩ := (hts t (by simp)).name ht
    obtain rfl : name = s := by simpa [hn] using hs
    exact hname
  | cons _ _ ih ih' =>
    simp only [Phrase.writable, blockWritable, Bool.and_eq_true]
    exact ⟨ih fun u hu => hts u (by simp [hu]), ih' fun u hu => hts u (by simp [hu])⟩
  | block _ _ _ ih => exact ih fun u hu => hts u (by simp [hu])
  | main _ _ ih => exact ih fun u hu => hts u (by simp [hu])
  | @procedure t n l r name ts b ht hn hc _ _ _ ih =>
    obtain ⟨s, hs, hname⟩ := (hts n (by simp)).name hn
    obtain rfl : name = s := by simpa [hc] using hs
    simp only [Phrase.writable, Item.writable, Bool.and_eq_true]
    exact ⟨hname, ih fun u hu => hts u (by simp [hu])⟩

lemma writable_of_writesItems {is : List Item} (h : WritesItems ts is)
    (hts : ∀ t ∈ ts, t.Within limit) : ∀ i ∈ is, i.writable (readable limit) = true := by
  induction h with
  | nil => simp
  | cons hi _ ih =>
    intro j hj
    rcases List.mem_cons.mp hj with rfl | hj
    · exact writable_of_writes hi fun u hu => hts u (by simp [hu])
    · exact ih (fun u hu => hts u (by simp [hu])) j hj

lemma Item.blockWritable_body {counts : Int → Bool} {i : Item} (h : i.writable counts = true) :
    blockWritable counts i.body = true := by
  cases i with
  | main m => exact h
  | procedure q => exact (Bool.and_eq_true_iff.mp h).2

/-- A program that tokens within the limit write can be written again. -/
lemma writable_of_written (h : Written ts p) (hts : ∀ t ∈ ts, t.Within limit)
    (hnests : p.NestsWithin cap) : p.Writable (readable limit) cap := by
  obtain ⟨is, m, his, hm, rfl⟩ := h
  have hall := writable_of_writesItems his hts
  refine ⟨rfl, ?_, ?_, hnests⟩
  · intro q hq
    obtain ⟨i, hi, he⟩ := List.mem_filterMap.mp hq
    cases i with
    | main => cases he
    | procedure q' =>
      cases he
      exact (Bool.and_eq_true_iff.mp (hall _ hi)).1
  · intro b hb
    have hmain : (some m).toList = is.filterMap Item.main? := by rw [hm, Option.toList_some]
    obtain ⟨i, hi, rfl⟩ := (mem_blocks_iff hmain rfl).mp hb
    exact Item.blockWritable_body (hall i hi)

lemma writable_of_ofSource {cap : Nat} (h : ofSource source limit cap = .ok p) :
    p.Writable (readable limit) cap := by
  unfold ofSource at h
  split at h
  · cases h
  · rename_i tokens htokens
    rcases ofTokens_cases (ended_of_tokenize htokens) cap with ⟨r, hr, hw, hnests, -⟩ | ⟨e, he, -⟩
    · rw [hr] at h
      obtain rfl := Except.ok.inj h
      exact writable_of_written hw
        (fun t ht => within_of_tokenize htokens t (List.takeWhile_subset _ ht)) hnests
    · rw [he] at h
      cases h

/-- **Round trip**: a program with a main block, with names and counts that can be written and with
blocks that nest within the cap is what its rendering is read as, up to lines, wherever the main
block stands among the procedures. This needs a limit on numbers that can be written itself, unless
the program has no loop. Every program that a text gives is such a program, for every limit. -/
theorem ofSource_render (limit cap : Nat) :
    (∀ p : Program, p.Writable (upTo limit) cap →
      Text.Integer.isWritable limit = true ∨ p.Writable (fun _ => false) cap → ∀ k,
        ∃ q, ofSource (p.render k) limit cap = .ok q ∧ q.unlined = p.unlined) ∧
    (∀ source p, ofSource source limit cap = .ok p →
      p.Writable (upTo limit) cap ∧
        ∀ k, ∃ q, ofSource (p.render k) limit cap = .ok q ∧ q.unlined = p.unlined) := by
  refine ⟨fun p hp hl k => exists_ofSource_render (writable_readable_iff.mpr ⟨hp, hl⟩) k,
    fun source p h => ?_⟩
  have hp : p.Writable (readable limit) cap := writable_of_ofSource h
  exact ⟨(writable_readable_iff.mp hp).1, fun k => exists_ofSource_render hp k⟩

/-- A count and a nesting at their limits, names that are nearly words of the vocabulary, and an
empty second part of a condition. -/
theorem ofSource_render_between :
    let p : Program :=
      { main := some ⟨[.branch .isEmpty [.loop 12 [.call "si?" 4] 3] (some []) 2], 1⟩
        procedures :=
          [⟨"si?", [.branch (.isPainted .red) [] none 8], 7⟩, ⟨"Veces", [.loop 0 [] 9], 9⟩] }
    let source := "procedimiento si? ( ) \x7b si ( estaPintadaDeRojo? ) \x7b \x7d \x7d " ++
      "programa \x7b si ( estaVacia? ) \x7b repetir 12 veces \x7b si? ( ) \x7d \x7d " ++
      "sino \x7b \x7d \x7d procedimiento Veces ( ) \x7b repetir 0 veces \x7b \x7d \x7d"
    p.Writable (upTo 12) 3 ∧ Text.Integer.isWritable (12 : Nat) = true ∧ p.render 1 = source ∧
      ∃ q, ofSource source 12 3 = .ok q ∧ q.unlined = p.unlined ∧ q.Writable (upTo 12) 3 ∧
        ∃ r, ofSource (q.render 2) 12 3 = .ok r ∧ r.unlined = q.unlined := by
  intro p source
  have hp : p.Writable (upTo 12) 3 := by
    refine ⟨rfl, by decide +kernel, by decide +kernel, ?_⟩
    simp [NestsWithin, blocks, p, blockNesting, Statement.nesting]
  have hlimit : Text.Integer.isWritable (12 : Nat) = true := by decide
  have hrender : p.render 1 = source := by decide +kernel
  obtain ⟨q, hq, he⟩ := (ofSource_render 12 3).1 p hp (.inl hlimit) 1
  rw [hrender] at hq
  obtain ⟨hwritable, hagain⟩ := (ofSource_render 12 3).2 source q hq
  exact ⟨hp, hlimit, hrender, q, hq, he, hwritable, hagain 2⟩

/-- **A limit of too many digits**: not even a loop of no passes is read back. -/
theorem ofSource_render_unwritable_limit :
    let limit := 10 ^ Text.Integer.maxDigits
    let p : Program := { main := some ⟨[.loop 0 [] 1], 1⟩ }
    p.Writable (upTo limit) 2 ∧
      ∀ k, ¬ ∃ q, ofSource (p.render k) limit 2 = .ok q ∧ q.unlined = p.unlined := by
  intro limit p
  have hcount : upTo limit 0 = true := by
    rw [upTo, Bool.and_eq_true, decide_eq_true_eq, decide_eq_true_eq]
    exact ⟨le_refl _, Int.natCast_nonneg _⟩
  refine ⟨⟨rfl, by simp [p], ?_, ?_⟩, ?_⟩
  · simp [blocks, p, blockWritable, Statement.writable, hcount]
  · simp [NestsWithin, blocks, p, blockNesting, Statement.nesting]
  · rintro k ⟨q, hq, he⟩
    have hblocks : q.blocks.map blockUnlined = [[.loop 0 [] 0]] := by
      rw [← blocks_unlined, he]
      rfl
    obtain ⟨b, hb, hloop⟩ := List.map_eq_singleton_iff.mp hblocks
    have hwritable : blockWritable (readable limit) b = true :=
      (writable_of_ofSource hq).blocks b (by simp [hb])
    -- it has a loop, and no count is readable
    have hread : ∀ n, readable limit n = false := by
      intro n
      rw [readable, Text.Integer.isWritable_pow, Bool.false_and]
    cases b with
    | nil => cases hloop
    | cons s r =>
      cases s with
      | loop => simp [blockWritable, Statement.writable, hread] at hwritable
      | branch _ _ no _ => cases no <;> cases hloop
      | command | call | foreign => cases hloop

end Program

end Trazo
