import Trazo.Proofs.Token.Position

/-!
Texts with a separator between them.

A separator is a gap that is not empty. No lexeme of the text before it can take anything of it, and
no comment in it can take anything of the text after it, so the lexer goes through the first text as
if it stood alone and comes to the second as to a new text, but for its place.
-/

namespace Trazo

/-! ### Places behind another text -/

/-- The token as it is behind a text that ends on this line and column. The column counts on from
there on the first line only. -/
def Token.shifted (line column : Nat) (t : Token) : Token :=
  { t with
    line := t.line + (line - 1)
    column := if t.line = 1 then t.column + (column - 1) else t.column }

/-- The fault as it is behind a text that ends on this line and column. -/
def LexFault.shifted (line column : Nat) (f : LexFault) : LexFault :=
  { f with
    line := f.line + (line - 1)
    column := if f.line = 1 then f.column + (column - 1) else f.column }

lemma lineBehind_eq_one_iff {s : List Char} : lineBehind s = 1 ↔ '\n' ∉ s := by
  rw [lineBehind, ← List.count_eq_zero]
  omega

lemma lineBehind_shift (text s : List Char) :
    lineBehind (text ++ s) = lineBehind s + (lineBehind text - 1) := by
  rw [lineBehind_append, lineBehind, lineBehind]
  omega

lemma columnBehind_shift (text s : List Char) :
    columnBehind (text ++ s) =
      if lineBehind s = 1 then columnBehind s + (columnBehind text - 1) else columnBehind s := by
  rw [columnBehind_append]
  by_cases hs : '\n' ∈ s
  · rw [if_pos hs, if_neg (by rwa [lineBehind_eq_one_iff, not_not])]
  · have halone : columnBehind s = 1 + s.length := by
      rw [← List.nil_append s, columnBehind_append, if_neg hs]
      rfl
    have hpos : 1 ≤ columnBehind text := Nat.le_add_right 1 _
    rw [if_neg hs, if_pos (lineBehind_eq_one_iff.mpr hs), halone]
    omega

namespace Lexer

variable {limit : Nat} {s text rest more w : List Char} {k : Token.Kind} {content : Token.Content}
  {segments : List Segment} {cause : LexCause}

lemma shifted_token (before text : List Char) (k : Token.Kind) (content : Token.Content) :
    Token.shifted (lineBehind before) (columnBehind before)
        ⟨k, content, lineBehind text, columnBehind text⟩ =
      ⟨k, content, lineBehind (before ++ text), columnBehind (before ++ text)⟩ := by
  have hline : 1 ≤ lineBehind before := Nat.le_add_right 1 _
  have hcolumn : 1 ≤ columnBehind before := Nat.le_add_right 1 _
  rw [lineBehind_shift, columnBehind_shift]
  simp only [Token.shifted, Token.mk.injEq, true_and]
  constructor
  · omega
  · split
    all_goals split
    all_goals omega

lemma shifted_fault (before text : List Char) (cause : LexCause) :
    LexFault.shifted (lineBehind before) (columnBehind before)
        ⟨cause, lineBehind text, columnBehind text⟩ =
      ⟨cause, lineBehind (before ++ text), columnBehind (before ++ text)⟩ := by
  rw [LexFault.shifted, lineBehind_shift, columnBehind_shift]

lemma tokensBehind_append (before text : List Char) (segments : List Segment) :
    tokensBehind (before ++ text) segments =
      (tokensBehind text segments).map
        (Token.shifted (lineBehind before) (columnBehind before)) := by
  induction segments generalizing text with
  | nil => rfl
  | cons s segments ih =>
    rw [tokensBehind, tokensBehind, List.map_cons, shifted_token]
    simp only [List.append_assoc] at ih ⊢
    rw [ih]

/-- The tokens that have been read, unless there is a fault. -/
def Scan.result (s : Scan) : Except LexFault (List Token) :=
  match s.fault with
  | some f => .error f
  | none => .ok s.tokens

lemma tokenize_eq_result (source : String) (limit : Nat) :
    tokenize source limit = (scan limit (.behind [] source.toList)).result :=
  tokenize_eq source limit

lemma Scan.result_append (s : Scan) (front : List Token) :
    Scan.result { s with tokens := front ++ s.tokens } = s.result.map (front ++ ·) := by
  unfold Scan.result
  cases s.fault <;> rfl

/-- **Only the place** of what is read depends on what stands before a text. -/
lemma result_scan_behind (limit : Nat) (before text : List Char) :
    (scan limit (.behind before text)).result =
      match (scan limit (.behind [] text)).result with
      | .ok ts => .ok (ts.map (Token.shifted (lineBehind before) (columnBehind before)))
      | .error f => .error (f.shifted (lineBehind before) (columnBehind before)) := by
  obtain ⟨d, tail, hd, hfinal⟩ := exists_covers limit text
  -- the scanner goes through the decomposition wherever the text stands
  have hscan (x : List Char) :
      scan limit (.behind x text) =
        { scan limit (.behind (x ++ d.text) tail) with
          tokens :=
            tokensBehind x d.segments ++ (scan limit (.behind (x ++ d.text) tail)).tokens } := by
    rw [scan_splits hd.splits, scan_gap hd.gap, Decomposition.text, List.append_assoc]
  rw [hscan before, hscan []]
  rcases hfinal with rfl | ⟨cause, hs⟩
  · have htokens := tokensBehind_append before [] d.segments
    have hend := shifted_token before d.text .endOfFile .nothing
    rw [List.append_nil] at htokens
    simp [Scan.result, scan_end, htokens, hend]
  · have hfault := shifted_fault before d.text cause
    simp [Scan.result, fault_scan_stuck hs, hfault]

/-! ### Nothing crosses a separator -/

/-- A lexeme before this text is not continued by it. -/
structure Parts (more : List Char) : Prop where
  word : Stops isWordChar more
  question : more.head? ≠ some '?'

lemma Stops.append {p : Char → Bool} (h : Stops p rest) (hmore : Stops p more) :
    Stops p (rest ++ more) := by
  cases rest with
  | nil => exact hmore
  | cons c r => exact stops_cons (h c rfl)

lemma Parts.digit (h : Parts more) : Stops isDigit more := by
  intro c hc
  have hword := h.word c hc
  simp only [isWordChar, Bool.or_eq_false_iff] at hword
  exact hword.2

lemma parts_of_separator (hw : Gap w) (hne : w ≠ []) (rest : List Char) : Parts (w ++ rest) := by
  have hhead : ∀ c ∈ [' ', '\t', '\r', '\n', '/'], isWordChar c = false ∧ c ≠ '?' := by
    simp [isWordChar, isWordStart, isDigit]
  have hmem : ∃ c r, w = c :: r ∧ c ∈ [' ', '\t', '\r', '\n', '/'] := by
    cases hw with
    | nil => exact absurd rfl hne
    | @blank c r hc => exact ⟨c, r, rfl, List.mem_append_left ['/'] (mem_of_isGap hc)⟩
    | comment => exact ⟨'/', _, rfl, by simp⟩
  obtain ⟨c, r, rfl, hc⟩ := hmem
  obtain ⟨hword, hquestion⟩ := hhead c hc
  exact ⟨stops_cons hword, by simpa using hquestion⟩

/-- A lexeme stays one when a text that parts is put behind all that follows it. -/
lemma Lexeme.append (h : Lexeme limit rest s k content) (hmore : Parts more) :
    Lexeme limit (rest ++ more) s k content := by
  cases h with
  | sign hk => exact .sign hk
  | number hne hd hr hl hv => exact .number hne hd (hr.append hmore.digit) hl hv
  | word hc hw hr hq hk =>
    refine .word hc hw (hr.append hmore.word) ?_ hk
    cases rest with
    | nil => exact hmore.question
    | cons c r => exact hq
  | question hc hw hk => exact .question hc hw hk

lemma Splits.append (h : Splits limit text segments rest) (hmore : Parts more) :
    Splits limit (text ++ more) segments (rest ++ more) := by
  induction h with
  | nil => exact .nil
  | cons hg hs _ ih =>
    rw [List.append_assoc, List.append_assoc]
    exact .cons hg (hs.append hmore) ih

/-- **A separator** ends the first text, and the second is read as a text of its own. -/
lemma result_scan_separated {d : Decomposition} (hd : d.Covers limit text []) (hw : Gap w)
    (hne : w ≠ []) (b : List Char) :
    (scan limit (.behind [] (text ++ (w ++ b)))).result =
      match (scan limit (.behind [] b)).result with
      | .ok ts => .ok (tokensBehind [] d.segments ++
          ts.map (Token.shifted (lineBehind (text ++ w)) (columnBehind (text ++ w))))
      | .error f => .error (f.shifted (lineBehind (text ++ w)) (columnBehind (text ++ w))) := by
  have htext : text = joined d.segments ++ d.last := by
    simpa [Decomposition.text] using hd.eq_append
  have hsplits := hd.splits.append (parts_of_separator hw hne b)
  have hscan : scan limit (.behind [] (text ++ (w ++ b))) =
      { scan limit (.behind (text ++ w) b) with
        tokens := tokensBehind [] d.segments ++ (scan limit (.behind (text ++ w) b)).tokens } := by
    have hgap : scan limit (.behind (joined d.segments) (d.last ++ w ++ b)) =
        scan limit (.behind (joined d.segments ++ (d.last ++ w)) b) := scan_gap (hd.gap.append hw)
    rw [scan_splits hsplits, htext]
    simp only [List.nil_append, List.append_nil, List.append_assoc] at hgap ⊢
    rw [hgap]
  rw [hscan, Scan.result_append, result_scan_behind]
  cases (scan limit (.behind [] b)).result <;> rfl

/-- What the tokens of a text are, or why it has none, wherever they stand. -/
def wording : Except LexFault (List Token) →
    Except LexCause (List (Token.Kind × Token.Content))
  | .ok ts => .ok (ts.map fun t => (t.kind, t.content))
  | .error f => .error f.cause

/-- **Texts with a separator between them** have the tokens of the first, without its end, and then
those of the second; or the fault of the second. What is read of the second text stands behind the
separator: its lines count on from there, its columns on the first line only. So it makes no
difference what the separator is, but for the places. -/
theorem tokenize_append_separator {a w : String} {limit : Nat} {ts : List Token}
    (ha : tokenize a limit = .ok ts) (hw : Gap w.toList) (hne : w ≠ "") (b : String) :
    (∃ front, ts = front ++ [endToken a.toList] ∧
      tokenize (a ++ w ++ b) limit =
        match tokenize b limit with
        | .ok us => .ok (front ++ us.map
            (Token.shifted (lineBehind (a ++ w).toList) (columnBehind (a ++ w).toList)))
        | .error f =>
          .error (f.shifted (lineBehind (a ++ w).toList) (columnBehind (a ++ w).toList))) ∧
    ∀ w' : String, Gap w'.toList → w' ≠ "" →
      wording (tokenize (a ++ w' ++ b) limit) = wording (tokenize (a ++ w ++ b) limit) := by
  obtain ⟨d, hd, rfl⟩ := exists_covers_of_tokenize ha
  have hread (v : String) (hv : Gap v.toList) (hne : v ≠ "") :
      tokenize (a ++ v ++ b) limit =
        match tokenize b limit with
        | .ok us => .ok (tokensBehind [] d.segments ++ us.map
            (Token.shifted (lineBehind (a ++ v).toList) (columnBehind (a ++ v).toList)))
        | .error f =>
          .error (f.shifted (lineBehind (a ++ v).toList) (columnBehind (a ++ v).toList)) := by
    have hne' : v.toList ≠ [] := by simpa using hne
    rw [tokenize_eq_result, tokenize_eq_result]
    simpa using result_scan_separated hd hv hne' b.toList
  have hend : a.toList = d.text := by simpa using hd.eq_append
  refine ⟨⟨tokensBehind [] d.segments, ?_, hread w hw hne⟩, fun w' hw' hne' => ?_⟩
  · rw [hend]
    rfl
  · rw [hread w hw hne, hread w' hw' hne']
    cases tokenize b limit with
    | ok us => simp [wording, Token.shifted]
    | error f => rfl

/-- A word and a comment on two lines before a second text that starts with a number; and the same
with a blank for the comment, before a text that has a fault. -/
theorem tokenize_append_separator_comment :
    tokenize "si" 9 = .ok [⟨.keyword .si, .text "si", 1, 1⟩, ⟨.endOfFile, .nothing, 1, 3⟩] ∧
      tokenize "7\n(" 9 = .ok
        [⟨.number, .number 7, 1, 1⟩, ⟨.openParen, .text "(", 2, 1⟩, ⟨.endOfFile, .nothing, 2, 2⟩] ∧
      tokenize ("si" ++ "/*\n*/" ++ "7\n(") 9 = .ok
        [⟨.keyword .si, .text "si", 1, 1⟩, ⟨.number, .number 7, 2, 3⟩,
          ⟨.openParen, .text "(", 3, 1⟩, ⟨.endOfFile, .nothing, 3, 2⟩] ∧
      tokenize ("si" ++ " " ++ "12") 9 = .error ⟨.numberTooLarge ['1', '2'] 9, 1, 4⟩ := by
  have ha : tokenize "si" 9 = .ok
      [⟨.keyword .si, .text "si", 1, 1⟩, ⟨.endOfFile, .nothing, 1, 3⟩] := by cbv
  have hb : tokenize "7\n(" 9 = .ok [⟨.number, .number 7, 1, 1⟩, ⟨.openParen, .text "(", 2, 1⟩,
      ⟨.endOfFile, .nothing, 2, 2⟩] := by cbv
  have hb' : tokenize "12" 9 = .error ⟨.numberTooLarge ['1', '2'] 9, 1, 1⟩ := by cbv
  have hcomment : Gap "/*\n*/".toList :=
    .comment (.plain (by decide) (by decide) .close) .nil
  have hblank : Gap " ".toList := .blank rfl .nil
  refine ⟨ha, hb, ?_, ?_⟩
  · obtain ⟨⟨front, hfront, h⟩, -⟩ := tokenize_append_separator ha hcomment (by decide) "7\n("
    have hfront' : [⟨.keyword .si, .text "si", 1, 1⟩] ++ [⟨.endOfFile, .nothing, 1, 3⟩] =
      front ++ [endToken "si".toList] := hfront
    rw [h, hb, ← List.append_inj_left' hfront' rfl]
    decide
  · obtain ⟨⟨front, -, h⟩, -⟩ := tokenize_append_separator ha hblank (by decide) "12"
    rw [h, hb']
    rfl

end Lexer

end Trazo
