import Trazo.Proofs.Token.Comment
import Trazo.Proofs.Token.Lexeme
import Trazo.Proofs.Token.Place

/-!
A text as gaps and lexemes in turn.

A decomposition stands before a tail: the rest of the text, where it may go on. It does go on until
the text ends or nothing starts at the tail.
-/

namespace Trazo.Lexer

/-- Blanks and comments. -/
inductive Gap : List Char → Prop
  | nil : Gap []
  | blank {c : Char} {r : List Char} (hc : isGap c = true) (hr : Gap r) : Gap (c :: r)
  | comment {s r : List Char} (hs : Body s) (hr : Gap r) : Gap ('/' :: '*' :: (s ++ r))

/-- A gap and the lexeme behind it. -/
structure Segment where
  gap : List Char
  text : List Char
  kind : Token.Kind
  content : Token.Content

/-- The text is the segments, one after the other, and then `rest`. -/
inductive Splits (limit : Nat) : List Char → List Segment → List Char → Prop
  | nil {rest : List Char} : Splits limit rest [] rest
  | cons {g s text rest : List Char} {k : Token.Kind} {content : Token.Content}
      {segments : List Segment} (hg : Gap g) (hs : Lexeme limit text s k content)
      (h : Splits limit text segments rest) :
      Splits limit (g ++ (s ++ text)) (⟨g, s, k, content⟩ :: segments) rest

/-- The text of segments, one after the other. -/
def joined (segments : List Segment) : List Char := segments.flatMap fun s => s.gap ++ s.text

/-- The tokens of segments that stand behind a text. -/
def tokensBehind (before : List Char) : List Segment → List Token
  | [] => []
  | s :: segments =>
    ⟨s.kind, s.content, lineBehind (before ++ s.gap), columnBehind (before ++ s.gap)⟩ ::
      tokensBehind (before ++ s.gap ++ s.text) segments

/-- Segments, and a gap after the last of them. -/
structure Decomposition where
  segments : List Segment
  last : List Char

namespace Decomposition

/-- The decomposition is the whole text but for the tail. -/
structure Covers (limit : Nat) (d : Decomposition) (text tail : List Char) : Prop where
  splits : Splits limit text d.segments (d.last ++ tail)
  gap : Gap d.last

/-- The text that is decomposed. -/
def text (d : Decomposition) : List Char := joined d.segments ++ d.last

/-- One token for each lexeme, and the end of the source. -/
def tokens (d : Decomposition) : List Token :=
  tokensBehind [] d.segments ++
    [⟨.endOfFile, .nothing, lineBehind d.text, columnBehind d.text⟩]

end Decomposition

/-- Neither a blank nor a comment nor a lexeme starts the text, for this cause. -/
inductive Stuck (limit : Nat) : List Char → LexCause → Prop
  | comment {r : List Char} (h : ∀ s rest, r = s ++ rest → ¬ Body s) :
      Stuck limit ('/' :: '*' :: r) .unterminatedComment
  | number {ds rest : List Char} (hne : ds ≠ []) (hd : ∀ d ∈ ds, isDigit d = true)
      (hr : Stops isDigit rest) (hl : Text.Integer.isWritable limit = true)
      (hv : limit < value ds) :
      Stuck limit (ds ++ rest) (.numberTooLarge ds limit)
  | limit {ds rest : List Char} (hne : ds ≠ []) (hd : ∀ d ∈ ds, isDigit d = true)
      (hr : Stops isDigit rest) (hl : Text.Integer.isWritable limit = false) :
      Stuck limit (ds ++ rest) .unwritableLimit
  | character {c : Char} {r : List Char} (hg : isGap c = false)
      (hp : Token.Kind.ofPunctuation? c = none) (hd : isDigit c = false)
      (hw : isWordStart c = false) (ho : ¬ ['/', '*'] <+: c :: r) :
      Stuck limit (c :: r) (.unexpectedCharacter c)

variable {limit : Nat} {g s text tail tail' rest : List Char} {d d' : Decomposition}

lemma Gap.append (h : Gap g) (h' : Gap s) : Gap (g ++ s) := by
  induction h with
  | nil => exact h'
  | blank hc _ ih => exact .blank hc ih
  | @comment s r hs _ ih =>
    rw [List.cons_append, List.cons_append, List.append_assoc]
    exact .comment hs ih

@[simp]
lemma joined_nil : joined [] = [] := rfl

@[simp]
lemma joined_cons (s : Segment) (segments : List Segment) :
    joined (s :: segments) = s.gap ++ (s.text ++ joined segments) := by
  simp [joined]

lemma Splits.eq_append {segments : List Segment} (h : Splits limit text segments rest) :
    text = joined segments ++ rest := by
  induction h with
  | nil => rfl
  | cons _ _ _ ih =>
    rw [ih]
    simp

namespace Decomposition

lemma Covers.eq_append (h : d.Covers limit text tail) : text = d.text ++ tail := by
  rw [h.splits.eq_append, Decomposition.text, List.append_assoc]

/-- A gap in front belongs to the first gap there is. -/
lemma Covers.gap_append (hg : Gap g) (h : d.Covers limit text tail) :
    ∃ d' : Decomposition, d'.Covers limit (g ++ text) tail := by
  obtain ⟨segments, last⟩ := d
  obtain ⟨hsplits, hlast⟩ := h
  cases hsplits with
  | nil =>
    refine ⟨⟨[], g ++ last⟩, ?_, hg.append hlast⟩
    rw [← List.append_assoc]
    exact .nil
  | @cons g' s text _ k content segments hg' hs h =>
    refine ⟨⟨⟨g ++ g', s, k, content⟩ :: segments, last⟩, ?_, hlast⟩
    rw [← List.append_assoc]
    exact .cons (hg.append hg') hs h

lemma Covers.cons {k : Token.Kind} {content : Token.Content} (hs : Lexeme limit text s k content)
    (h : d.Covers limit text tail) :
    ∃ d' : Decomposition, d'.Covers limit (s ++ text) tail :=
  ⟨⟨⟨[], s, k, content⟩ :: d.segments, d.last⟩, .cons .nil hs h.splits, h.gap⟩

/-- A decomposition goes on with one of the tail. -/
lemma Covers.trans (h : d.Covers limit text tail) (h' : d'.Covers limit tail tail') :
    ∃ e : Decomposition, e.Covers limit text tail' := by
  obtain ⟨segments, last⟩ := d
  obtain ⟨hsplits, hlast⟩ := h
  dsimp only at hsplits hlast
  generalize hrest : last ++ tail = rest at hsplits
  induction hsplits with
  | nil =>
    subst hrest
    exact h'.gap_append hlast
  | cons hg hs _ ih =>
    obtain ⟨e, he⟩ := ih hrest
    obtain ⟨e, he⟩ := he.cons hs
    exact he.gap_append hg

end Decomposition

/-- Nothing can follow: the text is at its end, or stuck. -/
def Final (limit : Nat) (tail : List Char) : Prop := tail = [] ∨ ∃ cause, Stuck limit tail cause

/-- What a text can start with. -/
lemma starts (limit : Nat) (c : Char) (r : List Char) :
    isGap c = true ∨ (∃ s rest, c :: r = '/' :: '*' :: (s ++ rest) ∧ Body s) ∨
      (∃ s rest k content, c :: r = s ++ rest ∧ Lexeme limit rest s k content) ∨
      ∃ cause, Stuck limit (c :: r) cause := by
  by_cases hg : isGap c = true
  · exact .inl hg
  by_cases ho : ['/', '*'] <+: c :: r
  · obtain ⟨r', he⟩ := ho
    rw [← he]
    by_cases hb : ∃ s rest, r' = s ++ rest ∧ Body s
    · obtain ⟨s, rest, rfl, hs⟩ := hb
      exact .inr (.inl ⟨s, rest, rfl, hs⟩)
    · refine .inr (.inr (.inr ⟨_, .comment fun s rest he hs => hb ⟨s, rest, he, hs⟩⟩))
  cases hk : Token.Kind.ofPunctuation? c with
  | some k => exact .inr (.inr (.inl ⟨[c], r, _, _, rfl, .sign hk⟩))
  | none =>
    by_cases hd : isDigit c = true
    · obtain ⟨ds, rest, he, hne, hds, hr⟩ := exists_digits hd r
      rw [he]
      cases hl : Text.Integer.isWritable limit with
      | false => exact .inr (.inr (.inr ⟨_, .limit hne hds hr hl⟩))
      | true =>
        by_cases hv : value ds ≤ limit
        · exact .inr (.inr (.inl ⟨ds, rest, _, _, rfl, .number hne hds hr hl hv⟩))
        · exact .inr (.inr (.inr ⟨_, .number hne hds hr hl (by omega)⟩))
    by_cases hw : isWordStart c = true
    · exact .inr (.inr (.inl (exists_lexeme_word limit hw r)))
    · refine .inr (.inr (.inr ⟨_, .character ?_ hk ?_ ?_ ho⟩))
      all_goals simp_all

/-- **Existence**: every text is decomposed up to a place where nothing can follow. -/
theorem exists_covers (limit : Nat) (text : List Char) :
    ∃ (d : Decomposition) (tail : List Char), d.Covers limit text tail ∧ Final limit tail := by
  induction hlen : text.length using Nat.strongRecOn generalizing text with
  | ind len ih =>
    subst hlen
    cases text with
    | nil => exact ⟨⟨[], []⟩, [], ⟨.nil, .nil⟩, .inl rfl⟩
    | cons c r =>
      rcases starts limit c r with hg | ⟨s, rest, he, hs⟩ | ⟨s, rest, k, content, he, hs⟩ | hstuck
      · obtain ⟨d, tail, hd, hf⟩ := ih r.length (by simp) r rfl
        obtain ⟨d', hd'⟩ := hd.gap_append (.blank hg .nil)
        exact ⟨d', tail, hd', hf⟩
      · rw [he] at ih ⊢
        obtain ⟨d, tail, hd, hf⟩ := ih rest.length (by simp; omega) rest rfl
        obtain ⟨d', hd'⟩ := hd.gap_append (.comment hs .nil)
        exact ⟨d', tail, by simpa using hd', hf⟩
      · rw [he] at ih ⊢
        have hpos := List.length_pos_iff.mpr hs.ne_nil
        obtain ⟨d, tail, hd, hf⟩ := ih rest.length (by simp; omega) rest rfl
        obtain ⟨d', hd'⟩ := hd.cons hs
        exact ⟨d', tail, hd', hf⟩
      · exact ⟨⟨[], []⟩, c :: r, ⟨.nil, .nil⟩, .inr hstuck⟩

end Trazo.Lexer
