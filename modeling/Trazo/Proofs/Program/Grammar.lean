import Mathlib.Tactic.Lemma
import Trazo.Program.Parser

/-!
The grammar of programs, as a relation between trees and the tokens that write them.

Each rule reads off one production. Lines come from the first token of what they belong to, names
and counts from the tokens that hold them. How deep blocks nest is a function of the tree, and so is
whether all counts in it can be written.
-/

namespace Trazo

namespace Program

/-- The main block or a procedure, at the top level of a program. -/
inductive Item
  | main (m : MainBlock)
  | procedure (q : Procedure)

namespace Item

def main? : Item → Option MainBlock
  | .main m => some m
  | .procedure _ => none

def procedure? : Item → Option Procedure
  | .main _ => none
  | .procedure q => some q

def body : Item → Block
  | .main m => m.body
  | .procedure q => q.body

end Item

/-- What a production of the grammar writes. -/
inductive Phrase
  | statement (s : Statement)
  | statements (b : Block)
  | block (b : Block)
  | item (i : Item)

/-- The tokens `ts` write the phrase. -/
inductive Writes : List Token → Phrase → Prop
  | command {t : Token} {c : Command} (ht : t.kind = .command c) :
      Writes [t] (.statement (.command c t.line))
  | loop {t n v : Token} {count : Int} {ts : List Token} {b : Block}
      (ht : t.kind = .keyword .repetir) (hn : n.kind = .number)
      (hc : n.content = .number count) (hv : v.kind = .keyword .veces)
      (hb : Writes ts (.block b)) :
      Writes (t :: n :: v :: ts) (.statement (.loop count b t.line))
  | branch {t l q r : Token} {s : Sensor} {ts : List Token} {b : Block}
      (ht : t.kind = .keyword .si) (hl : l.kind = .openParen) (hq : q.kind = .sensor s)
      (hr : r.kind = .closeParen) (hb : Writes ts (.block b)) :
      Writes (t :: l :: q :: r :: ts) (.statement (.branch s b none t.line))
  | branchElse {t l q r e : Token} {s : Sensor} {ts us : List Token} {b c : Block}
      (ht : t.kind = .keyword .si) (hl : l.kind = .openParen) (hq : q.kind = .sensor s)
      (hr : r.kind = .closeParen) (hb : Writes ts (.block b)) (he : e.kind = .keyword .sino)
      (hc : Writes us (.block c)) :
      Writes (t :: l :: q :: r :: (ts ++ e :: us)) (.statement (.branch s b (some c) t.line))
  | call {t l r : Token} {name : String} (ht : t.kind = .identifier)
      (hn : t.content = .text name) (hl : l.kind = .openParen) (hr : r.kind = .closeParen) :
      Writes [t, l, r] (.statement (.call name t.line))
  | nil : Writes [] (.statements [])
  | cons {ts us : List Token} {s : Statement} {b : Block} (hs : Writes ts (.statement s))
      (hb : Writes us (.statements b)) : Writes (ts ++ us) (.statements (s :: b))
  | block {l r : Token} {ts : List Token} {b : Block} (hl : l.kind = .openBrace)
      (hb : Writes ts (.statements b)) (hr : r.kind = .closeBrace) :
      Writes (l :: (ts ++ [r])) (.block b)
  | main {t : Token} {ts : List Token} {b : Block} (ht : t.kind = .keyword .programa)
      (hb : Writes ts (.block b)) : Writes (t :: ts) (.item (.main ⟨b, t.line⟩))
  | procedure {t n l r : Token} {name : String} {ts : List Token} {b : Block}
      (ht : t.kind = .keyword .procedimiento) (hn : n.kind = .identifier)
      (hc : n.content = .text name) (hl : l.kind = .openParen) (hr : r.kind = .closeParen)
      (hb : Writes ts (.block b)) :
      Writes (t :: n :: l :: r :: ts) (.item (.procedure ⟨name, b, t.line⟩))

/-- The tokens write the items, one after the other. -/
inductive WritesItems : List Token → List Item → Prop
  | nil : WritesItems [] []
  | cons {ts us : List Token} {i : Item} {is : List Item} (hi : Writes ts (.item i))
      (h : WritesItems us is) : WritesItems (ts ++ us) (i :: is)

/-- The tokens write the program: any number of procedures and exactly one main block, in any
order. -/
def Written (ts : List Token) (p : Program) : Prop :=
  ∃ is m, WritesItems ts is ∧ is.filterMap Item.main? = [m] ∧
    p = { main := some m, procedures := is.filterMap Item.procedure? }

/-! ### Nesting -/

end Program

mutual

/-- The length of the longest chain of blocks inside one another in a statement. -/
def Statement.nesting : Statement → Nat
  | .loop _ body _ => 1 + blockNesting body
  | .branch _ yes none _ => 1 + blockNesting yes
  | .branch _ yes (some no) _ => 1 + max (blockNesting yes) (blockNesting no)
  | .command .. | .call .. | .foreign .. => 0

/-- The length of the longest chain of blocks inside a block, itself not counted. -/
def blockNesting : Block → Nat
  | [] => 0
  | s :: r => max s.nesting (blockNesting r)

end

/-! ### Counts -/

/-- The token is no number, or one that can be written. -/
def Token.Countable (t : Token) : Prop :=
  t.kind = .number → ∀ n ∈ t.content.numbers, Text.Integer.isWritable n = true

mutual

/-- The counts of all loops in the statement can be written. -/
def Statement.Countable : Statement → Prop
  | .loop count body _ => Text.Integer.isWritable count = true ∧ BlockCountable body
  | .branch _ yes none _ => BlockCountable yes
  | .branch _ yes (some no) _ => BlockCountable yes ∧ BlockCountable no
  | .command .. | .call .. | .foreign .. => True

def BlockCountable : Block → Prop
  | [] => True
  | s :: r => s.Countable ∧ BlockCountable r

end

/-- There is room for the blocks in the statement, and its counts can be written unless `lax`. -/
def Statement.Fits (room : Nat) (s : Statement) (lax : Prop := False) : Prop :=
  s.nesting ≤ room ∧ (lax ∨ s.Countable)

/-- There is room for the block and all blocks in it, and its counts can be written unless
`lax`. -/
def BlockFits (room : Nat) (b : Block) (lax : Prop := False) : Prop :=
  1 + blockNesting b ≤ room ∧ (lax ∨ BlockCountable b)

section

variable {room : Nat} {s : Statement} {b yes no : Block} {count line : Int} {q : Sensor}
  {lax : Prop}

@[simp]
lemma Statement.fits_command {c : Command} : (Statement.command c line).Fits room lax :=
  ⟨Nat.zero_le _, .inr trivial⟩

@[simp]
lemma Statement.fits_call {name : String} : (Statement.call name line).Fits room lax :=
  ⟨Nat.zero_le _, .inr trivial⟩

@[simp]
lemma Statement.fits_loop : (Statement.loop count b line).Fits room lax ↔
    (lax ∨ Text.Integer.isWritable count = true) ∧ BlockFits room b lax := by
  rw [Statement.Fits, Statement.nesting, Statement.Countable, or_and_left]
  exact and_left_comm

@[simp]
lemma Statement.fits_branch :
    (Statement.branch q yes none line).Fits room lax ↔ BlockFits room yes lax := Iff.rfl

@[simp]
lemma Statement.fits_branchElse : (Statement.branch q yes (some no) line).Fits room lax ↔
    BlockFits room yes lax ∧ BlockFits room no lax := by
  have h : 1 + max (blockNesting yes) (blockNesting no) ≤ room ↔
      1 + blockNesting yes ≤ room ∧ 1 + blockNesting no ≤ room := by omega
  rw [Statement.Fits, Statement.nesting, Statement.Countable, h, or_and_left]
  exact and_and_and_comm

@[simp]
lemma blockFits_nil : BlockFits (room + 1) [] lax := ⟨by simp [blockNesting], .inr trivial⟩

@[simp]
lemma blockFits_cons :
    BlockFits (room + 1) (s :: b) lax ↔ s.Fits room lax ∧ BlockFits (room + 1) b lax := by
  have h : 1 + max s.nesting (blockNesting b) ≤ room + 1 ↔
      s.nesting ≤ room ∧ 1 + blockNesting b ≤ room + 1 := by omega
  rw [BlockFits, blockNesting, BlockCountable, h, or_and_left]
  exact and_and_and_comm

end

namespace Program

/-- The blocks of a program that are inside no other. -/
def blocks (p : Program) : List Block := (p.main.map (·.body)).toList ++ p.procedures.map (·.body)

lemma body_mem_blocks_of_main {p : Program} {m : MainBlock} (h : p.main = some m) :
    m.body ∈ p.blocks := by simp [blocks, h]

lemma body_mem_blocks_of_mem {p : Program} {q : Procedure} (h : q ∈ p.procedures) :
    q.body ∈ p.blocks := List.mem_append_right _ (List.mem_map_of_mem h)

/-- No chain of nested blocks is longer than `cap`, the outermost counted. -/
def NestsWithin (p : Program) (cap : Int) : Prop :=
  ∀ b ∈ p.blocks, 1 + (blockNesting b : Int) ≤ cap

/-- The counts of all loops in the program can be written. -/
def Countable (p : Program) : Prop := ∀ b ∈ p.blocks, BlockCountable b

/-- The counts of all loops in the phrase can be written. -/
def Phrase.Countable : Phrase → Prop
  | .statement s => s.Countable
  | .statements b | .block b => BlockCountable b
  | .item i => BlockCountable i.body

/-- **Counts** are the numbers of tokens, so the tokens tell whether they can be written. -/
lemma Writes.countable_iff {ts : List Token} {f : Phrase} (h : Writes ts f) :
    f.Countable ↔ ∀ t ∈ ts, t.Countable := by
  induction h with
  | command => simp [Phrase.Countable, Statement.Countable, Token.Countable, *]
  | loop => simp_all [Phrase.Countable, Statement.Countable, Token.Countable, Token.Content.numbers]
  | branch | branchElse | call | nil | cons | block | main | procedure =>
    simp_all [Phrase.Countable, Statement.Countable, BlockCountable, Token.Countable, Item.body,
      or_imp, forall_and]

lemma WritesItems.countable_iff {ts : List Token} {is : List Item} (h : WritesItems ts is) :
    (∀ i ∈ is, BlockCountable i.body) ↔ ∀ t ∈ ts, t.Countable := by
  induction h with
  | nil => simp
  | cons hi _ ih =>
    rw [List.forall_mem_cons, List.forall_mem_append, ih]
    exact and_congr_left' hi.countable_iff

/-- The outermost blocks of a program are the bodies of its items. -/
lemma mem_blocks_iff {p : Program} {is : List Item} {b : Block}
    (hm : p.main.toList = is.filterMap Item.main?)
    (hp : p.procedures = is.filterMap Item.procedure?) :
    b ∈ p.blocks ↔ ∃ i ∈ is, i.body = b := by
  have h : ∀ m : MainBlock, m ∈ p.main.toList ↔ Item.main m ∈ is := by
    intro m
    rw [hm, List.mem_filterMap]
    constructor
    · rintro ⟨i, hi, he⟩
      cases i <;> simp_all [Item.main?]
    · exact fun hi => ⟨_, hi, rfl⟩
  have h' : ∀ q : Procedure, q ∈ p.procedures ↔ Item.procedure q ∈ is := by
    intro q
    rw [hp, List.mem_filterMap]
    constructor
    · rintro ⟨i, hi, he⟩
      cases i <;> simp_all [Item.procedure?]
    · exact fun hi => ⟨_, hi, rfl⟩
  have hb : p.blocks = p.main.toList.map (·.body) ++ p.procedures.map (·.body) := by
    unfold blocks
    cases p.main <;> rfl
  simp only [hb, List.mem_append, List.mem_map, h, h']
  constructor
  · rintro (⟨m, hi, rfl⟩ | ⟨q, hi, rfl⟩)
    · exact ⟨_, hi, rfl⟩
    · exact ⟨_, hi, rfl⟩
  · rintro ⟨i, hi, rfl⟩
    cases i with
    | main m => exact .inl ⟨m, hi, rfl⟩
    | procedure q => exact .inr ⟨q, hi, rfl⟩

lemma Written.countable_iff {ts : List Token} {p : Program} (h : Written ts p) :
    p.Countable ↔ ∀ t ∈ ts, t.Countable := by
  obtain ⟨is, m, his, hm, rfl⟩ := h
  have hmem : ∀ b, b ∈ blocks { main := some m, procedures := is.filterMap Item.procedure? } ↔
      ∃ i ∈ is, i.body = b := fun _ => mem_blocks_iff (by rw [hm]; rfl) rfl
  rw [← his.countable_iff, Countable]
  simp only [hmem, forall_exists_index, and_imp, forall_apply_eq_imp_iff₂]

end Program

end Trazo
