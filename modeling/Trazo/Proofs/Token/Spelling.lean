import Mathlib.Data.List.Forall2
import Trazo.Proofs.Token.Scan

/-!
Words with one space between them, and the tokens that they are read as.

A sign, a numeral within the limit and a word each make one lexeme when a space or the end follows.
So a text of such words has exactly one token for each of them.
-/

namespace Trazo.Lexer

variable {limit : Nat} {w s : String} {k k' : Token.Kind} {content content' : Token.Content}
  {rest : List Char}

/-! ### Names -/

/-- A letter or an underscore, characters of words, and perhaps a question mark at the end. -/
def isWord : List Char → Bool
  | [] => false
  | c :: r =>
    isWordStart c && (r.all isWordChar || r.getLast? == some '?' && r.dropLast.all isWordChar)

/-- What a procedure can be named: a word with no meaning of its own. -/
def isName (s : String) : Bool := isWord s.toList && !Vocabulary.words.contains s

lemma isWord_iff {cs : List Char} : isWord cs = true ↔
    ∃ c w, isWordStart c = true ∧ (∀ d ∈ w, isWordChar d = true) ∧
      (cs = c :: w ∨ cs = c :: w ++ ['?']) := by
  cases cs with
  | nil => simp [isWord]
  | cons c r =>
    simp only [isWord, Bool.and_eq_true, Bool.or_eq_true, List.all_eq_true, beq_iff_eq]
    constructor
    · rintro ⟨hc, hr | ⟨hq, hr⟩⟩
      · exact ⟨c, r, hc, hr, .inl rfl⟩
      · refine ⟨c, r.dropLast, hc, hr, .inr ?_⟩
        obtain ⟨t, rfl⟩ := List.getLast?_eq_some_iff.mp hq
        simp
    · rintro ⟨d, w, hd, hw, he | he⟩
      · obtain ⟨rfl, rfl⟩ := List.cons.inj he
        exact ⟨hd, .inl hw⟩
      · obtain ⟨rfl, rfl⟩ := List.cons.inj he
        exact ⟨hd, .inr (by simpa using hw)⟩

/-- The words of the vocabulary are those that a kind is written with. -/
lemma mem_words_iff : s ∈ Vocabulary.words ↔ ∃ k : Token.Kind, k.word? = some s := by
  have hwords : Vocabulary.words = Token.Kind.all.filterMap Token.Kind.word? := by decide +kernel
  rw [hwords, List.mem_filterMap]
  constructor
  · rintro ⟨k, -, hk⟩
    exact ⟨k, hk⟩
  · rintro ⟨k, hk⟩
    exact ⟨k, Token.Kind.mem_all k, hk⟩

lemma isWord_of_word? (h : k.word? = some w) : isWord w.toList = true := by
  have hall : ∀ s ∈ Vocabulary.words, isWord s.toList = true := by decide +kernel
  exact hall w (mem_words_iff.mpr ⟨k, h⟩)

lemma isName_iff : isName s = true ↔
    isWord s.toList = true ∧ Token.Kind.Names s .identifier := by
  have hnames : Token.Kind.Names s .identifier ↔ s ∉ Vocabulary.words := by
    simp [Token.Kind.Names, Token.Kind.word?, mem_words_iff]
  rw [hnames]
  simp [isName]

/-! ### One word -/

/-- The text is at its end, or goes on with a space. -/
def Apart (rest : List Char) : Prop := Stops (· ≠ ' ') rest

lemma Apart.stops {p : Char → Bool} (h : Apart rest) (hp : p ' ' = false) : Stops p rest := by
  intro c hc
  obtain rfl : c = ' ' := by simpa using h c hc
  exact hp

/-- The word is a lexeme of this kind and content, wherever it stands apart. -/
def Lexes (limit : Nat) (w : String) (k : Token.Kind) (content : Token.Content) : Prop :=
  ∀ rest, Apart rest → Lexeme limit rest w.toList k content

lemma apart_nil : Apart [] := by simp [Apart, Stops]

lemma lexes_unique (h : Lexes limit w k content) (h' : Lexes limit w k' content') :
    k = k' ∧ content = content' := by
  obtain ⟨-, -, hk, hc⟩ := lexeme_unique (h [] apart_nil) (h' [] apart_nil) rfl
  exact ⟨hk, hc⟩

lemma lexes_sign {c : Char} (hw : w.toList = [c]) (hk : Token.Kind.ofPunctuation? c = some k) :
    Lexes limit w k (.text w) := by
  intro rest _
  have h : Lexeme limit rest [c] k (.text (String.ofList [c])) := .sign hk
  rwa [← hw, String.ofList_toList] at h

lemma lexes_word (h : isWord w.toList = true) (hk : k.Names w) : Lexes limit w k (.text w) := by
  intro rest hr
  obtain ⟨c, t, hc, ht, he | he⟩ := isWord_iff.mp h
  · have hs : w = String.ofList (c :: t) := by rw [← he, String.ofList_toList]
    have hq : rest.head? ≠ some '?' := by
      intro hq
      simpa using hr '?' hq
    subst hs
    rw [he]
    exact .word hc ht (hr.stops rfl) hq hk
  · have hs : w = String.ofList (c :: t ++ ['?']) := by rw [← he, String.ofList_toList]
    subst hs
    rw [he]
    exact .question hc ht hk

lemma lexes_of_word? (h : k.word? = some w) : Lexes limit w k (.text w) :=
  lexes_word (isWord_of_word? h) (.inl h)

lemma lexes_name (h : isName w = true) : Lexes limit w .identifier (.text w) := by
  obtain ⟨hw, hk⟩ := isName_iff.mp h
  exact lexes_word hw hk

lemma value_eq_ofDigitChars (ds : List Char) : value ds = Nat.ofDigitChars 10 ds 0 := by
  simp [value, Text.ofDigits, List.foldl_map, Nat.ofDigitChars_eq_foldl]

lemma toList_toString (n : Nat) : (toString n).toList = Nat.toDigits 10 n := by
  rw [Nat.toString_eq_ofList_toDigits, String.toList_ofList]

lemma value_toDigits (n : Nat) : value (Nat.toDigits 10 n) = n := by
  rw [value_eq_ofDigitChars, Nat.ofDigitChars_ten_toDigits]

lemma isDigit_of_mem_toDigits {n : Nat} {d : Char} (h : d ∈ Nat.toDigits 10 n) :
    isDigit d = true := by
  have hc := Nat.isDigit_of_mem_toDigits (by omega) (by omega) h
  simpa [isDigit, Char.isDigit, Char.le_def] using hc

/-- A number is written as a numeral that is read as it. -/
lemma lexes_numeral {n : Nat} (hl : Text.Integer.isWritable limit = true) (h : n ≤ limit) :
    Lexes limit (toString n) .number (.number n) := by
  intro rest hr
  have hlex : Lexeme limit rest (Nat.toDigits 10 n) .number
      (.number (value (Nat.toDigits 10 n))) := by
    refine .number Nat.toDigits_ne_nil (fun d => isDigit_of_mem_toDigits) (hr.stops rfl) hl ?_
    rw [value_toDigits]
    exact h
  rwa [value_toDigits, ← toList_toString] at hlex

/-! ### Many words -/

/-- The word is read as the token, wherever it stands apart. -/
def Reads (limit : Nat) (w : String) (t : Token) : Prop := Lexes limit w t.kind t.content

lemma kind_of_mem_reads {ws : List String} {ts : List Token}
    (h : List.Forall₂ (Reads limit) ws ts) : ∀ t ∈ ts, t.kind ≠ .endOfFile := by
  induction h with
  | nil => simp
  | cons hw _ ih =>
    intro t ht
    rcases List.mem_cons.mp ht with rfl | ht
    · exact (hw [] apart_nil).kind_ne_endOfFile
    · exact ih t ht

/-- The text of words behind another word. -/
def spaced (ws : List String) : List Char := ws.flatMap fun w => ' ' :: w.toList

lemma apart_spaced (ws : List String) : Apart (spaced ws) := by
  cases ws <;> simp [Apart, Stops, spaced]

lemma toList_intercalate_cons (w : String) (ws : List String) :
    (" ".intercalate (w :: ws)).toList = w.toList ++ spaced ws := by
  induction ws generalizing w with
  | nil => simp [spaced]
  | cons v ws ih =>
    rw [String.intercalate_cons_cons, String.toList_append, ih]
    simp [spaced]

/-- Each word behind another is a segment, with the space as its gap. -/
lemma exists_splits_spaced {ws : List String} (h : ∀ w ∈ ws, ∃ k content, Lexes limit w k content) :
    ∃ segments, Splits limit (spaced ws) segments [] ∧
      List.Forall₂ (fun w (s : Segment) => Lexes limit w s.kind s.content) ws segments := by
  induction ws with
  | nil => exact ⟨[], .nil, .nil⟩
  | cons w ws ih =>
    obtain ⟨k, content, hw⟩ := h w (by simp)
    obtain ⟨segments, hs, hreads⟩ := ih fun v hv => h v (by simp [hv])
    refine ⟨⟨[' '], w.toList, k, content⟩ :: segments, ?_, .cons hw hreads⟩
    exact .cons (.blank rfl .nil) (hw _ (apart_spaced ws)) hs

/-- Tokens say of a segment what it says itself. -/
lemma reads_tokensBehind {ws : List String} {segments : List Segment} (before : List Char)
    (h : List.Forall₂ (fun w (s : Segment) => Lexes limit w s.kind s.content) ws segments) :
    List.Forall₂ (Reads limit) ws (tokensBehind before segments) := by
  induction h generalizing before with
  | nil => exact .nil
  | cons hw _ ih => exact .cons hw (ih _)

/-- **Words with one space between them** have one token each. -/
theorem exists_tokenize_intercalate {ws : List String}
    (h : ∀ w ∈ ws, ∃ k content, Lexes limit w k content) :
    ∃ ts t, tokenize (" ".intercalate ws) limit = .ok (ts ++ [t]) ∧
      List.Forall₂ (Reads limit) ws ts ∧ t.kind = .endOfFile := by
  cases ws with
  | nil => exact ⟨[], _, tokenize_of_covers (d := ⟨[], []⟩) ⟨.nil, .nil⟩, .nil, rfl⟩
  | cons w ws =>
    obtain ⟨k, content, hw⟩ := h w (by simp)
    have hws : ∀ v ∈ ws, ∃ k content, Lexes limit v k content := fun v hv => h v (by simp [hv])
    obtain ⟨segments, hs, hreads⟩ := exists_splits_spaced hws
    have hcovers : (⟨⟨[], w.toList, k, content⟩ :: segments, []⟩ : Decomposition).Covers limit
        (" ".intercalate (w :: ws)).toList [] := by
      rw [toList_intercalate_cons]
      exact ⟨.cons .nil (hw _ (apart_spaced ws)) hs, .nil⟩
    refine ⟨_, _, tokenize_of_covers hcovers, ?_, rfl⟩
    exact reads_tokensBehind [] (.cons hw hreads)

end Trazo.Lexer
