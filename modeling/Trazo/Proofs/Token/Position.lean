import Mathlib
import Trazo.Proofs.Token.Scan

/-!
Where a lexer stands, whatever it has been asked.

Every scanner only moves its cursor forward, by one character after the other, so the cursor's line
and column are those of its place after any calls, failed ones among them. The tokens of a whole
text then stand at the first characters of its lexemes, in order, and a fault stands where the
lexemes and gaps before it end.
-/

namespace Trazo

/-! ### Cursors move forward -/

namespace Cursor

variable {source : List Char} {c c' c'' : Cursor}

/-- The cursor stands in the text, with the line and the column of its place. -/
structure StandsIn (source : List Char) (c : Cursor) : Prop where
  offset_le : c.offset ≤ source.length
  seen : c.seen = (source.take c.offset).reverse
  rest : c.rest = source.drop c.offset
  line : c.line = lineBehind (source.take c.offset)
  column : c.column = columnBehind (source.take c.offset)

/-- The cursor `c'` is `c` moved forward. -/
def Onward (c c' : Cursor) : Prop := ∃ n, c' = c.forward n

lemma Onward.refl (c : Cursor) : c.Onward c := ⟨0, rfl⟩

lemma onward_forward (c : Cursor) (n : Nat) : c.Onward (c.forward n) := ⟨n, rfl⟩

lemma forward_forward (m n : Nat) (c : Cursor) :
    (c.forward m).forward n = c.forward (m + n) := by
  induction m generalizing c with
  | zero => simp [forward]
  | succ m ih => rw [Nat.succ_add, forward, forward, ih]

lemma Onward.trans (h : c.Onward c') (h' : c'.Onward c'') : c.Onward c'' := by
  obtain ⟨m, rfl⟩ := h
  obtain ⟨n, rfl⟩ := h'
  exact ⟨m + n, forward_forward m n c⟩

lemma offset_le_next (c : Cursor) : c.offset ≤ c.next.offset := by
  unfold next
  split
  · exact Nat.le_refl _
  · split <;> simp [offset]

lemma Onward.offset_le (h : c.Onward c') : c.offset ≤ c'.offset := by
  obtain ⟨n, rfl⟩ := h
  induction n generalizing c with
  | zero => exact Nat.le_refl _
  | succ n ih => exact Nat.le_trans (offset_le_next c) ih

lemma standsIn_behind (text rest : List Char) : (behind text rest).StandsIn (text ++ rest) := by
  have hoffset : (behind text rest).offset = text.length := by simp [offset, behind]
  constructor
  case offset_le => simp [hoffset]
  all_goals
    rw [hoffset]
    simp [behind]

lemma StandsIn.exists_behind (h : c.StandsIn source) :
    ∃ text rest, source = text ++ rest ∧ c = behind text rest := by
  refine ⟨source.take c.offset, source.drop c.offset, (List.take_append_drop _ _).symm, ?_⟩
  obtain ⟨-, hseen, hrest, hline, hcolumn⟩ := h
  generalize c.offset = n at *
  obtain ⟨seen, rest, line, column⟩ := c
  subst hseen hrest hline hcolumn
  rfl

/-- **One character on**, the cursor has the line and the column of its new place. -/
lemma StandsIn.next (h : c.StandsIn source) : c.next.StandsIn source := by
  obtain ⟨text, rest, rfl, rfl⟩ := h.exists_behind
  cases rest with
  | nil => exact standsIn_behind text []
  | cons ch r =>
    rw [next_behind]
    have hnext := standsIn_behind (text ++ [ch]) r
    rwa [List.append_assoc, List.singleton_append] at hnext

lemma StandsIn.onward (h : c.StandsIn source) (hc : c.Onward c') : c'.StandsIn source := by
  obtain ⟨n, rfl⟩ := hc
  induction n generalizing c with
  | zero => exact h
  | succ n ih => exact ih h.next

end Cursor

/-! ### Places in order -/

/-- The line and the column are those of the place behind `p` characters of the text. -/
def IsPlace (source : List Char) (p : Nat) (line column : Int) : Prop :=
  line = lineBehind (source.take p) ∧ column = columnBehind (source.take p)

lemma Cursor.StandsIn.isPlace {source : List Char} {c : Cursor} (h : c.StandsIn source) :
    IsPlace source c.offset c.line c.column :=
  ⟨congrArg Nat.cast h.line, congrArg Nat.cast h.column⟩

/-- The token stands before the other: on an earlier line, or on the same line further left. -/
def Token.Precedes (t u : Token) : Prop :=
  t.line < u.line ∨ t.line = u.line ∧ t.column < u.column

/-- What stands behind more text stands later. -/
lemma place_lt_append (text : List Char) {s : List Char} (hs : s ≠ []) :
    lineBehind text < lineBehind (text ++ s) ∨
      lineBehind text = lineBehind (text ++ s) ∧ columnBehind text < columnBehind (text ++ s) := by
  rw [lineBehind_append, columnBehind_append]
  by_cases hn : '\n' ∈ s
  · have := List.count_pos_iff.mpr hn
    exact .inl (by omega)
  · have := List.length_pos_iff.mpr hs
    have := List.count_eq_zero.mpr hn
    rw [if_neg hn]
    exact .inr ⟨by omega, by omega⟩

namespace Lexer

variable {limit : Nat} {c stop : Cursor} {f : LexFault}

/-! ### Scanners move forward -/

lemma onward_skipComment (c : Cursor) : c.Onward (skipComment c).2 := by
  unfold skipComment
  dsimp only
  split
  all_goals exact (Cursor.onward_forward c 2).trans (Cursor.onward_forward _ _)

lemma fault_skipComment (h : (skipComment c).1 = .error f) : f = fault c f.cause := by
  unfold skipComment at h
  dsimp only at h
  split at h
  · cases h
  · cases h
    rfl

/-- A number is read past its digits, to a token or a fault at their start. -/
lemma readNumber_cases (limit : Nat) (c : Cursor) :
    (readNumber limit c).2 = c.forward (digits c.rest).length ∧
      ((∃ cause, (readNumber limit c).1 = .error (fault c cause)) ∨
        ∃ n, (readNumber limit c).1 = .ok (token c .number (.number n))) := by
  unfold readNumber
  dsimp only
  split
  · exact ⟨rfl, .inl ⟨_, rfl⟩⟩
  · split
    · exact ⟨rfl, .inl ⟨_, rfl⟩⟩
    · exact ⟨rfl, .inr ⟨_, rfl⟩⟩

lemma onward_readNumber (limit : Nat) (c : Cursor) : c.Onward (readNumber limit c).2 := by
  rw [(readNumber_cases limit c).1]
  exact Cursor.onward_forward c _

lemma fault_readNumber (h : (readNumber limit c).1 = .error f) : f = fault c f.cause := by
  rcases (readNumber_cases limit c).2 with ⟨cause, hr⟩ | ⟨n, hr⟩
  · rw [hr] at h
    cases h
    rfl
  · rw [hr] at h
    cases h

lemma token_readNumber {t : Token} (h : (readNumber limit c).1 = .ok t) :
    t = token c t.kind t.content := by
  rcases (readNumber_cases limit c).2 with ⟨cause, hr⟩ | ⟨n, hr⟩
  · rw [hr] at h
    cases h
  · rw [hr] at h
    cases h
    rfl

/-- A piece ends further on than it starts, and its fault is at its start. -/
lemma onward_piece (limit : Nat) (c : Cursor) :
    c.Onward (piece limit c).2 ∧ ∀ f, (piece limit c).1 = .fault f → f = fault c f.cause := by
  unfold piece
  split
  · exact ⟨.refl c, by simp⟩
  · split
    · have hcomment := onward_skipComment c
      split
      · rename_i he
        rw [he] at hcomment
        exact ⟨hcomment, by simp⟩
      · rename_i he
        rw [he] at hcomment
        refine ⟨hcomment, ?_⟩
        rintro _ ⟨⟩
        exact fault_skipComment (by rw [he])
    · split
      · exact ⟨Cursor.onward_forward c 1, by simp⟩
      · split
        · have hnumber := onward_readNumber limit c
          split
          · rename_i he
            rw [he] at hnumber
            exact ⟨hnumber, by simp⟩
          · rename_i he
            rw [he] at hnumber
            refine ⟨hnumber, ?_⟩
            rintro _ ⟨⟩
            exact fault_readNumber (by rw [he])
        · split
          · exact ⟨Cursor.onward_forward c _, by simp⟩
          · refine ⟨.refl c, ?_⟩
            rintro _ ⟨⟩
            rfl

/-- A scan stops further on than it starts, and its fault is on the way. -/
lemma onward_scan (limit : Nat) (c : Cursor) :
    c.Onward (scan limit c).stop ∧
      ∀ f, (scan limit c).fault = some f →
        ∃ c', c.Onward c' ∧ c'.Onward (scan limit c).stop ∧ f = fault c' f.cause := by
  have hblanks (c : Cursor) : c.Onward (skipBlanks c) := Cursor.onward_forward c _
  induction c using scan.induct limit with
  | case1 c t stop hp =>
    have hpiece := (onward_piece limit (skipBlanks c)).1
    rw [hp] at hpiece
    rw [scan_eq, hp]
    exact ⟨(hblanks c).trans hpiece, by simp⟩
  | case2 c f stop hp =>
    obtain ⟨hpiece, hfault⟩ := onward_piece limit (skipBlanks c)
    rw [hp] at hpiece hfault
    rw [scan_eq, hp]
    refine ⟨(hblanks c).trans hpiece, ?_⟩
    rintro _ ⟨⟩
    exact ⟨skipBlanks c, hblanks c, hpiece, hfault f rfl⟩
  | case3 c after hp ih | case4 c t after hp ih =>
    have hpiece := (onward_piece limit (skipBlanks c)).1
    rw [hp] at hpiece
    have hafter := (hblanks c).trans hpiece
    rw [scan_eq, hp]
    refine ⟨hafter.trans ih.1, fun f hf => ?_⟩
    obtain ⟨c', hc', hstop, he⟩ := ih.2 f hf
    exact ⟨c', hafter.trans hc', hstop, he⟩

/-! ### What can be asked of a lexer -/

inductive Call
  | next
  | look (k : Int)
  | skipBlanks
  | skipComment
  | readNumber
  | readWord
  | run

/-- What a lexer answers. A place that is not in the text can be looked for in vain. -/
inductive Answer
  | nothing
  | character (c : Option Char)
  | outside
  | token (t : Token)
  | tokens (ts : List Token)
  | fault (f : LexFault)

/-- The answer to a call, and the lexer after it. -/
def ask (l : Lexer) : Call → Answer × Lexer
  | .next => (.character l.cursor.head?, { l with cursor := l.cursor.next })
  | .look k =>
    match l.cursor.look k with
    | .ok c => (.character c, l)
    | .error _ => (.outside, l)
  | .skipBlanks => (.nothing, { l with cursor := Lexer.skipBlanks l.cursor })
  | .skipComment =>
    match Lexer.skipComment l.cursor with
    | (.ok _, c) => (.nothing, { l with cursor := c })
    | (.error f, c) => (.fault f, { l with cursor := c })
  | .readNumber =>
    match Lexer.readNumber l.limit l.cursor with
    | (.ok t, c) => (.token t, { l with cursor := c })
    | (.error f, c) => (.fault f, { l with cursor := c })
  | .readWord =>
    let (t, c) := Lexer.readWord l.cursor
    (.token t, { l with cursor := c })
  | .run =>
    match l.run with
    | (.ok ts, l) => (.tokens ts, l)
    | (.error f, l) => (.fault f, l)

/-- The lexer after calls, some of which may have failed. -/
def after (l : Lexer) (calls : List Call) : Lexer := calls.foldl (fun l call => (l.ask call).2) l

/-- From the cursor `c` an answer was given further on. The token of a number or a word is where
the cursor was, and a fault is on the way. -/
structure MovesOn (c : Cursor) (r : Answer × Lexer) : Prop where
  cursor : c.Onward r.2.cursor
  token : ∀ t, r.1 = .token t → t = token c t.kind t.content
  fault : ∀ f, r.1 = .fault f → ∃ c', c.Onward c' ∧ c'.Onward r.2.cursor ∧ f = fault c' f.cause

lemma movesOn_fault {l : Lexer} (h : c.Onward l.cursor) (hf : f = fault c f.cause) :
    MovesOn c (.fault f, l) := by
  refine ⟨h, by simp, ?_⟩
  rintro _ ⟨⟩
  exact ⟨c, .refl c, h, hf⟩

lemma movesOn_token {l : Lexer} {t : Token} (h : c.Onward l.cursor)
    (ht : t = token c t.kind t.content) : MovesOn c (.token t, l) := by
  refine ⟨h, ?_, by simp⟩
  rintro _ ⟨⟩
  exact ht

lemma movesOn_run (l : Lexer) : MovesOn l.cursor (l.ask .run) := by
  obtain ⟨hstop, hfault⟩ := onward_scan l.limit l.cursor
  simp only [ask, run]
  cases hs : (scan l.limit l.cursor).fault with
  | none => exact ⟨hstop, by simp, by simp⟩
  | some f =>
    refine ⟨hstop, by simp, ?_⟩
    rintro _ ⟨⟩
    exact hfault f hs

/-- **Each call** moves the cursor forward. -/
lemma movesOn_ask (l : Lexer) (call : Call) : MovesOn l.cursor (l.ask call) := by
  cases call with
  | next => exact ⟨Cursor.onward_forward l.cursor 1, by simp [ask], by simp [ask]⟩
  | look k =>
    simp only [ask]
    split
    all_goals exact ⟨.refl l.cursor, by simp, by simp⟩
  | skipBlanks => exact ⟨Cursor.onward_forward l.cursor _, by simp [ask], by simp [ask]⟩
  | skipComment =>
    have hmove := onward_skipComment l.cursor
    simp only [ask]
    split
    · rename_i he
      rw [he] at hmove
      exact ⟨hmove, by simp, by simp⟩
    · rename_i he
      rw [he] at hmove
      exact movesOn_fault hmove (fault_skipComment (by rw [he]))
  | readNumber =>
    have hmove := onward_readNumber l.limit l.cursor
    simp only [ask]
    split
    · rename_i he
      rw [he] at hmove
      exact movesOn_token hmove (@token_readNumber l.limit _ _ (by rw [he]))
    · rename_i he
      rw [he] at hmove
      exact movesOn_fault hmove (@fault_readNumber l.limit _ _ (by rw [he]))
  | readWord => exact movesOn_token (Cursor.onward_forward l.cursor _) rfl
  | run => exact movesOn_run l

/-- **Any calls** leave the cursor in the text, with the line and the column of its place. -/
lemma standsIn_after {source : List Char} {l : Lexer} (h : l.cursor.StandsIn source)
    (calls : List Call) : (l.after calls).cursor.StandsIn source := by
  induction calls generalizing l with
  | nil => exact h
  | cons call calls ih => exact ih (h.onward (movesOn_ask l call).cursor)

/-! ### Tokens and faults of whole texts -/

/-- The text up to its `p`-th character is lexemes and gaps, and the token is the lexeme that starts
there, with the line and the column of that place. -/
structure BeginsAt (limit : Nat) (source : List Char) (p : Nat) (t : Token) : Prop where
  before : ∃ d : Decomposition, d.Covers limit source (source.drop p)
  lexeme : ∃ s rest, source.drop p = s ++ rest ∧ Lexeme limit rest s t.kind t.content
  place : IsPlace source p t.line t.column

/-- The text up to its `p`-th character is lexemes and gaps, and the fault is about what starts
there, with the line and the column of that place. -/
structure ArisesAt (limit : Nat) (source : List Char) (p : Nat) (f : LexFault) : Prop where
  before : ∃ d : Decomposition, d.Covers limit source (source.drop p)
  stuck : Stuck limit (source.drop p) f.cause
  place : IsPlace source p f.line f.column

variable {source text rest before : List Char} {segments : List Segment}

/-- The token of each segment begins where the text of the segment does. -/
lemma beginsAt_of_splits (h : Splits limit text segments rest) {before : List Char}
    (hbefore : ∃ d : Decomposition, d.Covers limit (before ++ text) text) :
    ∀ t ∈ tokensBehind before segments, ∃ p, BeginsAt limit (before ++ text) p t := by
  induction h generalizing before with
  | nil => simp [tokensBehind]
  | @cons g s text rest k content segments hg hs h ih =>
    obtain ⟨d, hd⟩ := hbefore
    have hgap : (⟨[], g⟩ : Decomposition).Covers limit (g ++ (s ++ text)) (s ++ text) := ⟨.nil, hg⟩
    have hlexeme : (⟨[⟨[], s, k, content⟩], []⟩ : Decomposition).Covers limit (s ++ text) text :=
      ⟨.cons .nil hs .nil, .nil⟩
    obtain ⟨e, he⟩ := hd.trans hgap
    intro t ht
    rcases List.mem_cons.mp ht with rfl | ht
    · have hsource : before ++ (g ++ (s ++ text)) = (before ++ g) ++ (s ++ text) := by simp
      rw [hsource] at he ⊢
      refine ⟨(before ++ g).length, ⟨e, ?_⟩, ⟨s, text, ?_, hs⟩, ?_⟩
      · rwa [List.drop_left]
      · rw [List.drop_left]
      · rw [IsPlace, List.take_left]
        exact ⟨rfl, rfl⟩
    · have hsource : before ++ (g ++ (s ++ text)) = (before ++ g ++ s) ++ text := by simp
      obtain ⟨e', he'⟩ := he.trans hlexeme
      rw [hsource] at he' ⊢
      exact ih ⟨e', he'⟩ t ht

/-- The end of the source, as the token behind a text. -/
def endToken (text : List Char) : Token :=
  ⟨.endOfFile, .nothing, lineBehind text, columnBehind text⟩

lemma exists_behind_of_mem (before : List Char) (segments : List Segment) (last : List Char) :
    ∀ t ∈ tokensBehind before segments ++ [endToken (before ++ joined segments ++ last)],
      ∃ x, t.line = lineBehind (before ++ x) ∧ t.column = columnBehind (before ++ x) := by
  induction segments generalizing before with
  | nil =>
    intro t ht
    obtain rfl := List.mem_singleton.mp ht
    exact ⟨last, by simp [endToken]⟩
  | cons s segments ih =>
    intro t ht
    rcases List.mem_cons.mp ht with rfl | ht
    · exact ⟨s.gap, rfl, rfl⟩
    · have hbehind := ih (before ++ s.gap ++ s.text)
      simp only [joined_cons, List.append_assoc] at ht hbehind
      obtain ⟨x, hx⟩ := hbehind t (by simpa using ht)
      exact ⟨s.gap ++ (s.text ++ x), hx⟩

/-- The tokens of a text stand one after the other. -/
lemma pairwise_tokensBehind (h : Splits limit text segments rest) (before last : List Char) :
    (tokensBehind before segments ++ [endToken (before ++ joined segments ++ last)]).Pairwise
      Token.Precedes := by
  induction h generalizing before with
  | nil => exact List.pairwise_singleton _ _
  | @cons g s text rest k content segments hg hs h ih =>
    have htail := ih (before ++ g ++ s)
    have hmem := exists_behind_of_mem (before ++ g ++ s) segments last
    have hjoined : before ++ joined (⟨g, s, k, content⟩ :: segments) =
        before ++ g ++ s ++ joined segments := by simp
    rw [hjoined]
    refine List.pairwise_cons.mpr ⟨fun t ht => ?_, htail⟩
    obtain ⟨x, hline, hcolumn⟩ := hmem t ht
    have hne : s ++ x ≠ [] := fun he => hs.ne_nil (List.append_eq_nil_iff.mp he).1
    have hlt := place_lt_append (before ++ g) hne
    rw [Token.Precedes, hline, hcolumn, List.append_assoc _ s x]
    dsimp only
    omega

/-- **Positions**: after any calls a lexer stands in its text, with the line and the column of its
place, and a call answers with tokens and faults of the places that it passes. The tokens of a text
stand at the first characters of its lexemes, one after the other, and the last one at its end. The
fault of a text stands where its lexemes and gaps end: at the character that starts nothing, at the
first digit of the number, or at the opening sign of the comment that no other is around. -/
theorem positions_follow_text (source : String) (limit : Nat) :
    (∀ calls : List Call,
      let l := (start source limit).after calls
      l.cursor.StandsIn source.toList ∧
        ∀ call,
          (∀ t, (l.ask call).1 = .token t →
            IsPlace source.toList l.cursor.offset t.line t.column) ∧
          ∀ f, (l.ask call).1 = .fault f → ∃ p, l.cursor.offset ≤ p ∧
            p ≤ (l.ask call).2.cursor.offset ∧ IsPlace source.toList p f.line f.column) ∧
    (∀ tokens, tokenize source limit = .ok tokens →
      tokens.Pairwise Token.Precedes ∧
        ∃ front, tokens = front ++ [endToken source.toList] ∧
          ∀ t ∈ front, ∃ p, BeginsAt limit source.toList p t) ∧
    ∀ f, tokenize source limit = .error f → ∃ p, ArisesAt limit source.toList p f := by
  refine ⟨?_, ?_, ?_⟩
  · intro calls l
    have hstart : (start source limit).cursor.StandsIn source.toList :=
      Cursor.standsIn_behind [] source.toList
    have hl : l.cursor.StandsIn source.toList := standsIn_after hstart calls
    refine ⟨hl, fun call => ?_⟩
    have hcall := movesOn_ask l call
    constructor
    · intro t ht
      rw [hcall.token t ht]
      exact hl.isPlace
    · intro f hf
      obtain ⟨c, hc, hstop, he⟩ := hcall.fault f hf
      refine ⟨c.offset, hc.offset_le, hstop.offset_le, ?_⟩
      rw [he]
      exact (hl.onward hc).isPlace
  · intro tokens h
    obtain ⟨d, hd, rfl⟩ := exists_covers_of_tokenize h
    have htext : source.toList = d.text := by simpa using hd.eq_append
    have hstart : (⟨[], []⟩ : Decomposition).Covers limit source.toList source.toList :=
      ⟨.nil, .nil⟩
    refine ⟨pairwise_tokensBehind hd.splits [] d.last, tokensBehind [] d.segments, ?_, ?_⟩
    · rw [htext]
      rfl
    · exact beginsAt_of_splits hd.splits ⟨_, hstart⟩
  · intro f h
    obtain ⟨d, tail, hd, hs, hline, hcolumn⟩ := exists_stuck_of_tokenize h
    have htext := hd.eq_append
    rw [htext] at hd ⊢
    refine ⟨d.text.length, ⟨d, ?_⟩, ?_, ?_⟩
    · rwa [List.drop_left]
    · rwa [List.drop_left]
    · rw [IsPlace, List.take_left, hline, hcolumn]
      exact ⟨rfl, rfl⟩

/-- A comment on the second line that is never closed, though one inside it is: the whole text has
its fault there, and so has a lexer that passes the comment alone. -/
theorem positions_follow_text_unclosed :
    let source := "si\n/*(/**/"
    let f : LexFault := ⟨.unterminatedComment, 2, 1⟩
    let si : Token := ⟨.keyword .si, .text "si", 1, 1⟩
    (tokenize source 9 = .error f ∧ ∃ p, ArisesAt 9 source.toList p f) ∧
      (∃ l, l = (start source 9).after [.readWord, .skipBlanks] ∧
        l.cursor.StandsIn source.toList ∧ (l.ask .skipComment).1 = .fault f ∧
        ∃ p, l.cursor.offset ≤ p ∧ p ≤ (l.ask .skipComment).2.cursor.offset ∧
          IsPlace source.toList p f.line f.column) ∧
      tokenize "si\n" 9 = .ok [si, endToken "si\n".toList] ∧
      [si, endToken "si\n".toList].Pairwise Token.Precedes := by
  intro source f si
  have herror : tokenize source 9 = .error f := by cbv
  have hcall : (((start source 9).after [.readWord, .skipBlanks]).ask .skipComment).1 =
      .fault f := by cbv
  have hok : tokenize "si\n" 9 = .ok [si, endToken "si\n".toList] := by cbv
  obtain ⟨hcalls, -, hfault⟩ := positions_follow_text source 9
  obtain ⟨hl, hasked⟩ := hcalls [.readWord, .skipBlanks]
  refine ⟨⟨herror, hfault f herror⟩, ⟨_, rfl, hl, hcall, (hasked .skipComment).2 f hcall⟩, hok, ?_⟩
  exact ((positions_follow_text "si\n" 9).2.1 _ hok).1

end Lexer

end Trazo
