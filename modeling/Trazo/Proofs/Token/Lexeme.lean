import Mathlib.Algebra.Order.Group.Nat
import Mathlib.Data.List.TakeWhile
import Trazo.Proofs.Text.Numeral
import Trazo.Token.Lexer

/-!
Lexemes: signs, numbers and words, each as it stands before the rest of the text.

A number or a word is as long as it can be, so what follows it counts too. The limit on numbers is
one on their values, however many zeros they start with. There are no numbers at all under a limit
that cannot be written, as its digits are counted.
-/

namespace Trazo.Text

lemma foldl_digits (n : Nat) (ds : List Nat) :
    ds.foldl (fun n d => 10 * n + d) n = n * 10 ^ ds.length + ofDigits ds := by
  induction ds generalizing n with
  | nil => simp [ofDigits]
  | cons d ds ih =>
    have h0 : ofDigits (d :: ds) = (10 * 0 + d) * 10 ^ ds.length + ofDigits ds := ih (10 * 0 + d)
    rw [List.foldl_cons, ih, h0, List.length_cons, Nat.pow_succ, Nat.add_mul, Nat.add_mul]
    have : 10 * n * 10 ^ ds.length = n * (10 ^ ds.length * 10) := by
      rw [Nat.mul_comm 10 n, Nat.mul_assoc, Nat.mul_comm 10]
    omega

lemma ofDigits_cons (d : Nat) (ds : List Nat) :
    ofDigits (d :: ds) = d * 10 ^ ds.length + ofDigits ds := by
  have h := foldl_digits (10 * 0 + d) ds
  rw [Nat.mul_zero, Nat.zero_add] at h
  rw [← h]
  simp [ofDigits]

end Trazo.Text

namespace Trazo.Lexer

variable {limit : Nat} {ds : List Char} {c : Char} {k : Token.Kind}

/-! ### Characters -/

lemma isDigit_iff : isDigit c = true ↔ '0'.toNat ≤ c.toNat ∧ c.toNat ≤ '9'.toNat := by
  simp [isDigit, Char.le_def, UInt32.le_iff_toNat_le]

lemma mem_of_isGap (h : isGap c = true) : c ∈ [' ', '\t', '\r', '\n'] := by
  simpa [isGap, or_assoc] using h

lemma mem_of_ofPunctuation? (h : Token.Kind.ofPunctuation? c = some k) :
    c ∈ ['\x7b', '\x7d', '(', ')'] := by
  unfold Token.Kind.ofPunctuation? at h
  split at h <;> simp_all

lemma head_of_sign (h : Token.Kind.ofPunctuation? c = some k) : isGap c = false ∧ c ≠ '/' := by
  have hall : ∀ d ∈ ['\x7b', '\x7d', '(', ')'], isGap d = false ∧ d ≠ '/' := by
    simp [isGap]
  exact hall c (mem_of_ofPunctuation? h)

lemma isDigit_eq_false_of_isWordStart (h : isWordStart c = true) : isDigit c = false := by
  rw [← Bool.not_eq_true, isDigit_iff]
  simp only [isWordStart, Bool.or_eq_true, Bool.and_eq_true, decide_eq_true_eq, Char.le_def,
    UInt32.le_iff_toNat_le, Char.toNat_val] at h
  have h9 : '9'.toNat = 57 := rfl
  have hA : 'A'.toNat = 65 := rfl
  have ha : 'a'.toNat = 97 := rfl
  rcases h with (h | h) | rfl
  · omega
  · omega
  · decide

/-- A class that has none of these characters holds of no blank and of no sign. -/
lemma head_of_class {p : Char → Bool} (h : p c = true)
    (hp : ∀ d ∈ [' ', '\t', '\r', '\n', '\x7b', '\x7d', '(', ')', '/'], p d = false) :
    isGap c = false ∧ c ≠ '/' ∧ Token.Kind.ofPunctuation? c = none := by
  have hnot : c ∉ [' ', '\t', '\r', '\n', '\x7b', '\x7d', '(', ')', '/'] := by
    intro hc
    simp [hp c hc] at h
  refine ⟨?_, ?_, ?_⟩
  · by_contra hg
    have := mem_of_isGap (eq_true_of_ne_false hg)
    simp_all
  · simp_all
  · cases hk : Token.Kind.ofPunctuation? c with
    | none => rfl
    | some k =>
      have := mem_of_ofPunctuation? hk
      simp_all

lemma head_of_digit (h : isDigit c = true) :
    isGap c = false ∧ c ≠ '/' ∧ Token.Kind.ofPunctuation? c = none :=
  head_of_class h (by simp [isDigit])

lemma head_of_wordStart (h : isWordStart c = true) :
    isGap c = false ∧ c ≠ '/' ∧ Token.Kind.ofPunctuation? c = none :=
  head_of_class h (by simp [isWordStart])

/-! ### Numbers -/

lemma value_cons (d : Char) (ds : List Char) :
    value (d :: ds) = (d.toNat - '0'.toNat) * 10 ^ ds.length + value ds := by
  simp [value, Text.ofDigits_cons]

/-- Zeros at the start do not change a number. -/
lemma value_dropWhile (ds : List Char) : value (ds.dropWhile (· = '0')) = value ds := by
  induction ds with
  | nil => rfl
  | cons d ds ih =>
    rw [List.dropWhile_cons]
    split
    · rename_i hd
      obtain rfl : d = '0' := by simpa using hd
      rw [ih, value_cons]
      simp
    · rfl

lemma pow_le_value {d : Char} (hd : isDigit d = true) (h0 : d ≠ '0') :
    10 ^ ds.length ≤ value (d :: ds) := by
  have hpos : 1 ≤ d.toNat - '0'.toNat := by
    have hle := (isDigit_iff.mp hd).1
    have hne : d.toNat ≠ '0'.toNat := fun he => h0 (Char.toNat_inj.mp he)
    omega
  rw [value_cons]
  have := Nat.mul_le_mul_right (10 ^ ds.length) hpos
  omega

lemma lt_pow_length_toDigits (limit : Nat) : limit < 10 ^ (Nat.toDigits 10 limit).length :=
  (Nat.length_toDigits_le_iff (by omega) Nat.length_toDigits_pos).mp (Nat.le_refl _)

/-- **The limit** is one on values: a numeral with more digits than the limit exceeds it. -/
theorem exceeds_eq (hds : ∀ d ∈ ds, isDigit d = true) :
    exceeds limit ds = decide (limit < value ds) := by
  have hlong : (Nat.toDigits 10 limit).length < (ds.dropWhile (· = '0')).length →
      limit < value ds := by
    intro hlen
    rw [← value_dropWhile]
    cases hs : ds.dropWhile (· = '0') with
    | nil => simp [hs] at hlen
    | cons d r =>
      have hmem : d ∈ ds.dropWhile (· = '0') := by simp [hs]
      have hd : isDigit d = true := hds d ((List.dropWhile_sublist _).subset hmem)
      have h0 : d ≠ '0' := by
        have := List.head?_dropWhile_not (· = '0') ds
        simpa [hs] using this
      rw [hs, List.length_cons] at hlen
      calc limit < 10 ^ (Nat.toDigits 10 limit).length := lt_pow_length_toDigits limit
        _ ≤ 10 ^ r.length := Nat.pow_le_pow_right (by omega) (by omega)
        _ ≤ value (d :: r) := pow_le_value hd h0
  unfold exceeds
  simp only [value_dropWhile, gt_iff_lt]
  by_cases hlen : (Nat.toDigits 10 limit).length < (ds.dropWhile (· = '0')).length
  · simp [hlen, hlong hlen]
  · simp [hlen]

end Trazo.Lexer

/-! ### Words -/

namespace Trazo.Token.Kind

/-- The kind of the word `s`: the one that is written so, or an identifier when there is none. -/
def Names (s : String) (k : Kind) : Prop :=
  k.word? = some s ∨ k = .identifier ∧ ∀ k' : Kind, k'.word? ≠ some s

lemma mem_all (k : Kind) : k ∈ all := by
  rcases k with k | c | s | _ | _ | _ | _ | _ | _ | _
  · cases k <;> decide
  · rcases c with d | c | _
    · cases d <;> decide
    · cases c <;> decide
    · decide
  · rcases s with _ | c
    · decide
    · cases c <;> decide
  all_goals decide

/-- No two kinds are written with the same word. -/
lemma eq_of_word? {k k' : Kind} {s : String} (h : k.word? = some s) (h' : k'.word? = some s) :
    k = k' := by
  have hinj : ∀ a ∈ all, ∀ b ∈ all, a.word?.isSome → a.word? = b.word? → a = b := by
    decide +kernel
  exact hinj k (mem_all k) k' (mem_all k') (by simp [h]) (h.trans h'.symm)

theorem ofWord_eq_iff {s : String} {k : Kind} : ofWord s = k ↔ Names s k := by
  unfold ofWord Names
  cases hf : all.find? fun k => k.word? == some s with
  | none =>
    have hno : ∀ k' : Kind, k'.word? ≠ some s := by
      intro k' h
      simpa [h] using List.find?_eq_none.mp hf k' (mem_all k')
    constructor
    · rintro rfl
      exact .inr ⟨rfl, hno⟩
    · rintro (h | ⟨rfl, -⟩)
      · exact absurd h (hno k)
      · rfl
  | some k' =>
    have hk : k'.word? = some s := by simpa using List.find?_some hf
    constructor
    · rintro rfl
      exact .inl hk
    · rintro (h | ⟨-, hno⟩)
      · exact eq_of_word? hk h
      · exact absurd hk (hno k')

end Trazo.Token.Kind

namespace Trazo.Lexer

variable {limit : Nat} {p : Char → Bool} {s w rest : List Char} {c : Char} {k : Token.Kind}
  {content : Token.Content}

/-- The text does not go on with a character of the class `p`. -/
def Stops (p : Char → Bool) (rest : List Char) : Prop := ∀ c, rest.head? = some c → p c = false

lemma stops_cons (h : p c = false) : Stops p (c :: rest) := by
  intro d hd
  obtain rfl : c = d := by simpa using hd
  exact h

lemma takeWhile_append_of_stops (hs : ∀ c ∈ s, p c = true) (hr : Stops p rest) :
    (s ++ rest).takeWhile p = s := by
  have hnil : rest.takeWhile p = [] := by
    cases rest with
    | nil => rfl
    | cons c r => simp [hr c rfl]
  rw [List.takeWhile_append_of_pos hs, hnil, List.append_nil]

lemma stops_dropWhile (cs : List Char) : Stops p (cs.dropWhile p) := by
  intro c hc
  have := List.head?_dropWhile_not p cs
  simpa [hc] using this

/-- The text `s`, when `rest` follows it, is a lexeme of this kind and content. -/
inductive Lexeme (limit : Nat) (rest : List Char) : List Char → Token.Kind → Token.Content → Prop
  | sign {c : Char} {k : Token.Kind} (hk : Token.Kind.ofPunctuation? c = some k) :
      Lexeme limit rest [c] k (.text (String.ofList [c]))
  | number {ds : List Char} (hne : ds ≠ []) (hd : ∀ d ∈ ds, isDigit d = true)
      (hr : Stops isDigit rest) (hl : Text.Integer.isWritable limit = true)
      (hv : value ds ≤ limit) :
      Lexeme limit rest ds .number (.number (value ds))
  | word {c : Char} {w : List Char} {k : Token.Kind} (hc : isWordStart c = true)
      (hw : ∀ d ∈ w, isWordChar d = true) (hr : Stops isWordChar rest) (hq : rest.head? ≠ some '?')
      (hk : k.Names (String.ofList (c :: w))) :
      Lexeme limit rest (c :: w) k (.text (String.ofList (c :: w)))
  | question {c : Char} {w : List Char} {k : Token.Kind} (hc : isWordStart c = true)
      (hw : ∀ d ∈ w, isWordChar d = true) (hk : k.Names (String.ofList (c :: w ++ ['?']))) :
      Lexeme limit rest (c :: w ++ ['?']) k (.text (String.ofList (c :: w ++ ['?'])))

lemma Lexeme.ne_nil (h : Lexeme limit rest s k content) : s ≠ [] := by
  cases h with
  | number hne => exact hne
  | sign | word | question => simp

lemma isWordChar_of_mem (hc : isWordStart c = true) (hw : ∀ d ∈ w, isWordChar d = true) :
    ∀ d ∈ c :: w, isWordChar d = true := by
  intro d hd
  rcases List.mem_cons.mp hd with rfl | hd
  · simp [isWordChar, hc]
  · exact hw d hd

/-- A word goes as far as its characters do. -/
lemma word_append (hw : ∀ d ∈ w, isWordChar d = true) (hr : Stops isWordChar rest)
    (hq : rest.head? ≠ some '?') : word (w ++ rest) = w := by
  simp only [word, takeWhile_append_of_stops hw hr, List.drop_left, if_neg hq]

/-- A question mark right after a word belongs to it. -/
lemma word_append_question (hw : ∀ d ∈ w, isWordChar d = true) (rest : List Char) :
    word (w ++ '?' :: rest) = w ++ ['?'] := by
  have hr : Stops isWordChar ('?' :: rest) := stops_cons (by decide)
  simp only [word, takeWhile_append_of_stops hw hr, List.drop_left, List.head?_cons, if_true]

/-- A run of digits is taken whole. -/
lemma exists_digits (hc : isDigit c = true) (r : List Char) :
    ∃ ds rest, c :: r = ds ++ rest ∧ ds ≠ [] ∧ (∀ d ∈ ds, isDigit d = true) ∧
      Stops isDigit rest := by
  refine ⟨(c :: r).takeWhile isDigit, (c :: r).dropWhile isDigit, ?_, ?_, ?_, stops_dropWhile _⟩
  · exact List.takeWhile_append_dropWhile.symm
  · simp [hc]
  · exact fun d hd => List.mem_takeWhile_imp hd

/-- A word can always be read. -/
lemma exists_lexeme_word (limit : Nat) (hc : isWordStart c = true) (r : List Char) :
    ∃ s rest k content, c :: r = s ++ rest ∧ Lexeme limit rest s k content := by
  have hsplit : r = r.takeWhile isWordChar ++ r.dropWhile isWordChar :=
    List.takeWhile_append_dropWhile.symm
  have hw : ∀ d ∈ r.takeWhile isWordChar, isWordChar d = true :=
    fun d hd => List.mem_takeWhile_imp hd
  by_cases hq : (r.dropWhile isWordChar).head? = some '?'
  · obtain ⟨rest, hr⟩ := List.head?_eq_some_iff.mp hq
    refine ⟨c :: r.takeWhile isWordChar ++ ['?'], rest, _, _, ?_,
      .question hc hw (Token.Kind.ofWord_eq_iff.mp rfl)⟩
    rw [hr] at hsplit
    rw [List.append_assoc, List.cons_append, List.singleton_append, ← hsplit]
  · refine ⟨c :: r.takeWhile isWordChar, r.dropWhile isWordChar, _, _, ?_,
      .word hc hw (stops_dropWhile _) hq (Token.Kind.ofWord_eq_iff.mp rfl)⟩
    rw [List.cons_append, ← hsplit]

/-- A lexeme starts neither with a blank nor with the opening sign of a comment. -/
lemma Lexeme.stops (h : Lexeme limit rest s k content) :
    Stops isGap (s ++ rest) ∧ ¬ ['/', '*'] <+: s ++ rest := by
  have hhead : ∃ c t, s = c :: t ∧ isGap c = false ∧ c ≠ '/' := by
    cases h with
    | @sign c k hk =>
      have := head_of_sign hk
      exact ⟨c, [], rfl, this.1, this.2⟩
    | number hne hd hr hl hv =>
      obtain ⟨c, ds, rfl⟩ := List.exists_cons_of_ne_nil hne
      have := head_of_digit (hd c (by simp))
      exact ⟨c, ds, rfl, this.1, this.2.1⟩
    | @word c w k hc hw hr hq hk =>
      have := head_of_wordStart hc
      exact ⟨c, w, rfl, this.1, this.2.1⟩
    | @question c w k hc hw hk =>
      have := head_of_wordStart hc
      exact ⟨c, w ++ ['?'], rfl, this.1, this.2.1⟩
  obtain ⟨c, t, rfl, hg, hc⟩ := hhead
  refine ⟨stops_cons hg, ?_⟩
  rw [List.cons_append, List.cons_prefix_cons]
  exact fun h => hc h.1.symm

lemma Lexeme.kind_ne_endOfFile (h : Lexeme limit rest s k content) : k ≠ .endOfFile := by
  rintro rfl
  cases h with
  | sign hk =>
    unfold Token.Kind.ofPunctuation? at hk
    split at hk <;> simp at hk
  | word _ _ _ _ hk => simp [Token.Kind.Names, Token.Kind.word?] at hk
  | question _ _ hk => simp [Token.Kind.Names, Token.Kind.word?] at hk

end Trazo.Lexer
