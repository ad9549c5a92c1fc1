import Trazo.Proofs.Program.Grammar
import Trazo.Proofs.Token.Spelling

/-!
Programs written out as text: every part by its words, with one space between them.

The tokens of such a text write a program that differs from the first in its lines only. This needs
names that are words without another meaning and counts that are numbers within the limit.
-/

namespace Trazo

open Lexer

/-! ### Words of a program -/

/-- Words in braces. -/
def braced (ws : List String) : List String := "\x7b" :: (ws ++ ["\x7d"])

mutual

/-- The words of a statement as they stand in a source. A foreign statement has none. -/
def Statement.words : Statement → List String
  | .command c _ => [c.word]
  | .call name _ => [name, "(", ")"]
  | .loop count body _ =>
    Keyword.repetir.word :: toString count :: Keyword.veces.word :: braced (blockWords body)
  | .branch q yes none _ => Keyword.si.word :: "(" :: q.word :: ")" :: braced (blockWords yes)
  | .branch q yes (some no) _ =>
    Keyword.si.word :: "(" :: q.word :: ")" ::
      (braced (blockWords yes) ++ Keyword.sino.word :: braced (blockWords no))
  | .foreign .. => []

def blockWords : Block → List String
  | [] => []
  | s :: r => s.words ++ blockWords r

end

mutual

/-- The statement with no line. -/
def Statement.unlined : Statement → Statement
  | .command c _ => .command c 0
  | .call name _ => .call name 0
  | .loop count body _ => .loop count (blockUnlined body) 0
  | .branch q yes none _ => .branch q (blockUnlined yes) none 0
  | .branch q yes (some no) _ => .branch q (blockUnlined yes) (some (blockUnlined no)) 0
  | .foreign kind _ => .foreign kind 0

def blockUnlined : Block → Block
  | [] => []
  | s :: r => s.unlined :: blockUnlined r

end

section

variable (counts : Int → Bool)

mutual

/-- Whether a statement can be written: its calls are of names, and its counts satisfy `counts`. -/
def Statement.writable : Statement → Bool
  | .command .. => true
  | .call name _ => isName name
  | .loop count body _ => counts count && blockWritable body
  | .branch _ yes none _ => blockWritable yes
  | .branch _ yes (some no) _ => blockWritable yes && blockWritable no
  | .foreign .. => false

def blockWritable : Block → Bool
  | [] => true
  | s :: r => s.writable && blockWritable r

end

end

/-- The numbers that do not exceed the limit. -/
def upTo (limit : Nat) (n : Int) : Bool := 0 ≤ n && n ≤ limit

/-- The numbers that can be read with the limit: none, if it has too many digits itself. -/
def readable (limit : Nat) (n : Int) : Bool := Text.Integer.isWritable limit && upTo limit n

def MainBlock.unlined (m : MainBlock) : MainBlock := ⟨blockUnlined m.body, 0⟩

def Procedure.unlined (q : Procedure) : Procedure := ⟨q.name, blockUnlined q.body, 0⟩

namespace Program

def Item.words : Item → List String
  | .main m => Keyword.programa.word :: braced (blockWords m.body)
  | .procedure q => Keyword.procedimiento.word :: q.name :: "(" :: ")" :: braced (blockWords q.body)

def Item.unlined : Item → Item
  | .main m => .main m.unlined
  | .procedure q => .procedure q.unlined

def Item.writable (counts : Int → Bool) : Item → Bool
  | .main m => blockWritable counts m.body
  | .procedure q => isName q.name && blockWritable counts q.body

/-- The items of a program, the main block after the first `k` procedures. -/
def items (p : Program) (k : Nat) : List Item :=
  (p.procedures.take k).map .procedure ++ p.main.toList.map .main ++
    (p.procedures.drop k).map .procedure

/-- A program as text, the main block after the first `k` procedures. -/
def render (p : Program) (k : Nat) : String := " ".intercalate ((p.items k).flatMap Item.words)

/-- The program with no lines. -/
def unlined (p : Program) : Program where
  main := p.main.map MainBlock.unlined
  procedures := p.procedures.map Procedure.unlined

/-- The program has a main block, its names and counts can be written, and its blocks nest within
the cap. -/
structure Writable (counts : Int → Bool) (cap : Int) (p : Program) : Prop where
  main : p.main.isSome
  names : ∀ q ∈ p.procedures, isName q.name = true
  blocks : ∀ b ∈ p.blocks, blockWritable counts b = true
  nesting : p.NestsWithin cap

end Program

/-! ### Lines do not count -/

mutual

lemma nesting_unlined : ∀ s : Statement, s.unlined.nesting = s.nesting
  | .loop _ body _ => by
    simp only [Statement.unlined, Statement.nesting, blockNesting_unlined body]
  | .branch _ yes none _ => by
    simp only [Statement.unlined, Statement.nesting, blockNesting_unlined yes]
  | .branch _ yes (some no) _ => by
    simp only [Statement.unlined, Statement.nesting, blockNesting_unlined yes,
      blockNesting_unlined no]
  | .command .. | .call .. | .foreign .. => by simp only [Statement.unlined, Statement.nesting]

lemma blockNesting_unlined : ∀ b : Block, blockNesting (blockUnlined b) = blockNesting b
  | [] => rfl
  | s :: r => by
    simp only [blockUnlined, blockNesting, nesting_unlined s, blockNesting_unlined r]

end

/-! ### Counts -/

section

variable {counts counts' : Int → Bool}

mutual

lemma writable_mono (hc : ∀ n, counts n = true → counts' n = true) :
    ∀ s : Statement, s.writable counts = true → s.writable counts' = true
  | .command .., _ => rfl
  | .call .., h => h
  | .loop count body _, h => by
    simp only [Statement.writable, Bool.and_eq_true] at h ⊢
    exact ⟨hc count h.1, blockWritable_mono hc body h.2⟩
  | .branch _ yes none _, h => blockWritable_mono hc yes h
  | .branch _ yes (some no) _, h => by
    simp only [Statement.writable, Bool.and_eq_true] at h ⊢
    exact ⟨blockWritable_mono hc yes h.1, blockWritable_mono hc no h.2⟩

lemma blockWritable_mono (hc : ∀ n, counts n = true → counts' n = true) :
    ∀ b : Block, blockWritable counts b = true → blockWritable counts' b = true
  | [], _ => rfl
  | s :: r, h => by
    simp only [blockWritable, Bool.and_eq_true] at h ⊢
    exact ⟨writable_mono hc s h.1, blockWritable_mono hc r h.2⟩

end

lemma Program.Writable.mono {cap : Int} {p : Program} (h : p.Writable counts cap)
    (hc : ∀ n, counts n = true → counts' n = true) : p.Writable counts' cap :=
  ⟨h.main, h.names, fun b hb => blockWritable_mono hc b (h.blocks b hb), h.nesting⟩

end

/-- With a limit that can be written all numbers up to it are read; with any other, only programs
without loops are. -/
lemma Program.writable_readable_iff {limit : Nat} {cap : Int} {p : Program} :
    p.Writable (readable limit) cap ↔ p.Writable (upTo limit) cap ∧
      (Text.Integer.isWritable limit = true ∨ p.Writable (fun _ => false) cap) := by
  cases hl : Text.Integer.isWritable limit with
  | true =>
    have he : readable limit = upTo limit := by
      funext n
      rw [readable, hl, Bool.true_and]
    simp [he]
  | false =>
    have he : readable limit = fun _ => false := by
      funext n
      rw [readable, hl, Bool.false_and]
    rw [he]
    constructor
    · exact fun h => ⟨h.mono (by simp), .inr h⟩
    · rintro ⟨-, h | h⟩
      · cases h
      · exact h

/-! ### Every word is a lexeme -/

/-- Each of the words is a lexeme wherever it stands apart. -/
def Spelled (limit : Nat) (ws : List String) : Prop :=
  ∀ w ∈ ws, ∃ k content, Lexes limit w k content

variable {limit : Nat} {w : String} {ws vs : List String} {k : Token.Kind} {t : Token}
  {ts : List Token}

lemma spelled_nil : Spelled limit [] := by simp [Spelled]

lemma Spelled.cons {content : Token.Content} (hw : Lexes limit w k content)
    (h : Spelled limit ws) : Spelled limit (w :: ws) := by
  intro v hv
  rcases List.mem_cons.mp hv with rfl | hv
  · exact ⟨k, content, hw⟩
  · exact h v hv

lemma Spelled.append (h : Spelled limit ws) (h' : Spelled limit vs) :
    Spelled limit (ws ++ vs) := by
  intro v hv
  rcases List.mem_append.mp hv with hv | hv
  · exact h v hv
  · exact h' v hv

lemma lexes_openBrace : Lexes limit "\x7b" .openBrace (.text "\x7b") := lexes_sign rfl rfl
lemma lexes_closeBrace : Lexes limit "\x7d" .closeBrace (.text "\x7d") := lexes_sign rfl rfl
lemma lexes_openParen : Lexes limit "(" .openParen (.text "(") := lexes_sign rfl rfl
lemma lexes_closeParen : Lexes limit ")" .closeParen (.text ")") := lexes_sign rfl rfl

lemma lexes_keyword (x : Keyword) : Lexes limit x.word (.keyword x) (.text x.word) :=
  lexes_of_word? rfl

lemma lexes_command (c : Command) : Lexes limit c.word (.command c) (.text c.word) :=
  lexes_of_word? rfl

lemma lexes_sensor (q : Sensor) : Lexes limit q.word (.sensor q) (.text q.word) :=
  lexes_of_word? rfl

lemma lexes_count {count : Int} (h : readable limit count = true) :
    Lexes limit (toString count) .number (.number count) := by
  simp only [readable, upTo, Bool.and_eq_true, decide_eq_true_eq] at h
  obtain ⟨hl, h0, hle⟩ := h
  obtain ⟨n, rfl⟩ := Int.eq_ofNat_of_zero_le h0
  exact lexes_numeral hl (Int.ofNat_le.mp hle)

lemma Spelled.braced (h : Spelled limit ws) : Spelled limit (braced ws) :=
  .cons lexes_openBrace (h.append (.cons lexes_closeBrace spelled_nil))

mutual

lemma spelled_words : ∀ s : Statement, s.writable (readable limit) = true → Spelled limit s.words
  | .command c _, _ => .cons (lexes_command c) spelled_nil
  | .call name _, h => .cons (lexes_name h)
    (.cons lexes_openParen (.cons lexes_closeParen spelled_nil))
  | .loop count body _, h => by
    simp only [Statement.writable, Bool.and_eq_true] at h
    obtain ⟨hcount, hb⟩ := h
    exact .cons (lexes_keyword _) (.cons (lexes_count hcount)
      (.cons (lexes_keyword _) (spelled_blockWords body hb).braced))
  | .branch q yes none _, h => .cons (lexes_keyword _) (.cons lexes_openParen
      (.cons (lexes_sensor q) (.cons lexes_closeParen (spelled_blockWords yes h).braced)))
  | .branch q yes (some no) _, h => by
    simp only [Statement.writable, Bool.and_eq_true] at h
    exact .cons (lexes_keyword _) (.cons lexes_openParen
      (.cons (lexes_sensor q) (.cons lexes_closeParen ((spelled_blockWords yes h.1).braced.append
        (.cons (lexes_keyword _) (spelled_blockWords no h.2).braced)))))
  | .foreign .., _ => spelled_nil

lemma spelled_blockWords :
    ∀ b : Block, blockWritable (readable limit) b = true → Spelled limit (blockWords b)
  | [], _ => spelled_nil
  | s :: r, h => by
    simp only [blockWritable, Bool.and_eq_true] at h
    exact (spelled_words s h.1).append (spelled_blockWords r h.2)

end

lemma Program.spelled_items {is : List Item} (his : ∀ i ∈ is, i.writable (readable limit) = true) :
    Spelled limit (is.flatMap Item.words) := by
  intro w hw
  obtain ⟨i, hi, hw⟩ := List.mem_flatMap.mp hw
  refine (?_ : Spelled limit i.words) w hw
  have hwritable := his i hi
  cases i with
  | main m => exact .cons (lexes_keyword _) (spelled_blockWords m.body hwritable).braced
  | procedure q =>
    simp only [Item.writable, Bool.and_eq_true] at hwritable
    exact .cons (lexes_keyword _) (.cons (lexes_name hwritable.1) (.cons lexes_openParen
      (.cons lexes_closeParen (spelled_blockWords q.body hwritable.2).braced)))

/-! ### The tokens write the program -/

lemma exists_cons_of_reads {content : Token.Content} (hw : Lexes limit w k content)
    (h : List.Forall₂ (Reads limit) (w :: ws) ts) :
    ∃ t us, ts = t :: us ∧ (t.kind = k ∧ t.content = content) ∧
      List.Forall₂ (Reads limit) ws us := by
  obtain ⟨t, us, ht, hus, rfl⟩ := List.forall₂_cons_left_iff.mp h
  exact ⟨t, us, rfl, lexes_unique ht hw, hus⟩

lemma exists_append_of_reads (h : List.Forall₂ (Reads limit) (ws ++ vs) ts) :
    ∃ us rest, ts = us ++ rest ∧ List.Forall₂ (Reads limit) ws us ∧
      List.Forall₂ (Reads limit) vs rest := by
  refine ⟨ts.take ws.length, ts.drop ws.length, (List.take_append_drop _ _).symm, ?_, ?_⟩
  · simpa using List.forall₂_take ws.length h
  · simpa using List.forall₂_drop ws.length h

open Program (Writes WritesItems)

/-- Whatever tokens the words of a block are read as, they write its statements. -/
def BlockRead (limit : Nat) (b : Block) : Prop :=
  ∀ ts, List.Forall₂ (Reads limit) (blockWords b) ts →
    ∃ b', Writes ts (.statements b') ∧ blockUnlined b' = blockUnlined b

lemma BlockRead.braced {b : Block} (hb : BlockRead limit b)
    (h : List.Forall₂ (Reads limit) (braced (blockWords b)) ts) :
    ∃ b', Writes ts (.block b') ∧ blockUnlined b' = blockUnlined b := by
  obtain ⟨l, _, rfl, ⟨hl, -⟩, h⟩ := exists_cons_of_reads lexes_openBrace h
  obtain ⟨us, _, rfl, hus, h⟩ := exists_append_of_reads h
  obtain ⟨r, _, rfl, ⟨hr, -⟩, h⟩ := exists_cons_of_reads lexes_closeBrace h
  obtain rfl := List.forall₂_nil_left_iff.mp h
  obtain ⟨b', hb', he⟩ := hb us hus
  exact ⟨b', .block hl hb' hr, he⟩

mutual

lemma exists_writes_statement : ∀ s : Statement, s.writable (readable limit) = true →
    ∀ ts, List.Forall₂ (Reads limit) s.words ts →
      ∃ s', Writes ts (.statement s') ∧ s'.unlined = s.unlined
  | .command c _, _, ts, h => by
    obtain ⟨t, _, rfl, ⟨ht, -⟩, h⟩ := exists_cons_of_reads (lexes_command c) h
    obtain rfl := List.forall₂_nil_left_iff.mp h
    exact ⟨_, .command ht, rfl⟩
  | .call name _, hs, ts, h => by
    obtain ⟨t, _, rfl, ⟨ht, hn⟩, h⟩ := exists_cons_of_reads (lexes_name hs) h
    obtain ⟨l, _, rfl, ⟨hl, -⟩, h⟩ := exists_cons_of_reads lexes_openParen h
    obtain ⟨r, _, rfl, ⟨hr, -⟩, h⟩ := exists_cons_of_reads lexes_closeParen h
    obtain rfl := List.forall₂_nil_left_iff.mp h
    exact ⟨_, .call ht hn hl hr, rfl⟩
  | .loop count body _, hs, ts, h => by
    simp only [Statement.writable, Bool.and_eq_true] at hs
    obtain ⟨hcount, hbody⟩ := hs
    obtain ⟨t, _, rfl, ⟨ht, -⟩, h⟩ := exists_cons_of_reads (lexes_keyword _) h
    obtain ⟨n, _, rfl, ⟨hn, hc⟩, h⟩ := exists_cons_of_reads (lexes_count hcount) h
    obtain ⟨v, _, rfl, ⟨hv, -⟩, h⟩ := exists_cons_of_reads (lexes_keyword _) h
    obtain ⟨b, hb, he⟩ := (blockRead_of_writable body hbody).braced h
    exact ⟨_, .loop ht hn hc hv hb, by simp only [Statement.unlined, he]⟩
  | .branch q yes none _, hs, ts, h => by
    obtain ⟨t, _, rfl, ⟨ht, -⟩, h⟩ := exists_cons_of_reads (lexes_keyword _) h
    obtain ⟨l, _, rfl, ⟨hl, -⟩, h⟩ := exists_cons_of_reads lexes_openParen h
    obtain ⟨c, _, rfl, ⟨hc, -⟩, h⟩ := exists_cons_of_reads (lexes_sensor q) h
    obtain ⟨r, _, rfl, ⟨hr, -⟩, h⟩ := exists_cons_of_reads lexes_closeParen h
    obtain ⟨b, hb, he⟩ := (blockRead_of_writable yes hs).braced h
    exact ⟨_, .branch ht hl hc hr hb, by simp only [Statement.unlined, he]⟩
  | .branch q yes (some no) _, hs, ts, h => by
    simp only [Statement.writable, Bool.and_eq_true] at hs
    obtain ⟨t, _, rfl, ⟨ht, -⟩, h⟩ := exists_cons_of_reads (lexes_keyword _) h
    obtain ⟨l, _, rfl, ⟨hl, -⟩, h⟩ := exists_cons_of_reads lexes_openParen h
    obtain ⟨c, _, rfl, ⟨hc, -⟩, h⟩ := exists_cons_of_reads (lexes_sensor q) h
    obtain ⟨r, _, rfl, ⟨hr, -⟩, h⟩ := exists_cons_of_reads lexes_closeParen h
    obtain ⟨us, _, rfl, hus, h⟩ := exists_append_of_reads h
    obtain ⟨b, hb, he⟩ := (blockRead_of_writable yes hs.1).braced hus
    obtain ⟨e, _, rfl, ⟨hsino, -⟩, h⟩ := exists_cons_of_reads (lexes_keyword _) h
    obtain ⟨d, hd, he'⟩ := (blockRead_of_writable no hs.2).braced h
    exact ⟨_, .branchElse ht hl hc hr hb hsino hd, by simp only [Statement.unlined, he, he']⟩

lemma blockRead_of_writable :
    ∀ b : Block, blockWritable (readable limit) b = true → BlockRead limit b
  | [], _, ts, h => by
    obtain rfl := List.forall₂_nil_left_iff.mp h
    exact ⟨[], .nil, rfl⟩
  | s :: r, hb, ts, h => by
    simp only [blockWritable, Bool.and_eq_true] at hb
    obtain ⟨us, vs, rfl, hus, hvs⟩ := exists_append_of_reads h
    obtain ⟨s', hs', hs⟩ := exists_writes_statement s hb.1 us hus
    obtain ⟨r', hr', hr⟩ := blockRead_of_writable r hb.2 vs hvs
    exact ⟨s' :: r', .cons hs' hr', by simp only [blockUnlined, hs, hr]⟩

end

namespace Program

lemma exists_writes_item {i : Item} (hi : i.writable (readable limit) = true)
    (h : List.Forall₂ (Reads limit) i.words ts) :
    ∃ i', Writes ts (.item i') ∧ i'.unlined = i.unlined := by
  cases i with
  | main m =>
    obtain ⟨t, _, rfl, ⟨ht, -⟩, h⟩ := exists_cons_of_reads (lexes_keyword _) h
    obtain ⟨b, hb, he⟩ := (blockRead_of_writable m.body hi).braced h
    exact ⟨_, .main ht hb, by simp only [Item.unlined, MainBlock.unlined, he]⟩
  | procedure q =>
    simp only [Item.writable, Bool.and_eq_true] at hi
    obtain ⟨t, _, rfl, ⟨ht, -⟩, h⟩ := exists_cons_of_reads (lexes_keyword _) h
    obtain ⟨n, _, rfl, ⟨hn, hc⟩, h⟩ := exists_cons_of_reads (lexes_name hi.1) h
    obtain ⟨l, _, rfl, ⟨hl, -⟩, h⟩ := exists_cons_of_reads lexes_openParen h
    obtain ⟨r, _, rfl, ⟨hr, -⟩, h⟩ := exists_cons_of_reads lexes_closeParen h
    obtain ⟨b, hb, he⟩ := (blockRead_of_writable q.body hi.2).braced h
    exact ⟨_, .procedure ht hn hc hl hr hb, by simp only [Item.unlined, Procedure.unlined, he]⟩

lemma exists_writesItems {is : List Item} (his : ∀ i ∈ is, i.writable (readable limit) = true)
    (h : List.Forall₂ (Reads limit) (is.flatMap Item.words) ts) :
    ∃ is', WritesItems ts is' ∧ is'.map Item.unlined = is.map Item.unlined := by
  induction is generalizing ts with
  | nil =>
    obtain rfl := List.forall₂_nil_left_iff.mp h
    exact ⟨[], .nil, rfl⟩
  | cons i is ih =>
    rw [List.flatMap_cons] at h
    obtain ⟨us, vs, rfl, hus, hvs⟩ := exists_append_of_reads h
    obtain ⟨i', hi', hi⟩ := exists_writes_item (his i (by simp)) hus
    obtain ⟨is', his', he⟩ := ih (fun j hj => his j (by simp [hj])) hvs
    exact ⟨i' :: is', .cons hi' his', by simp only [List.map_cons, hi, he]⟩

end Program

end Trazo
