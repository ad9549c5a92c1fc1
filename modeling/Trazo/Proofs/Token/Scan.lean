import Trazo.Proofs.Token.Decomposition

/-!
The scanner goes through every decomposition of a text.

Each piece is the one the decomposition has there, so there is at most one decomposition, and no
other gets further than the scanner.
-/

namespace Trazo.Lexer

variable {limit : Nat} {before s text tail rest : List Char} {c : Char} {k : Token.Kind}
  {content : Token.Content} {cause : LexCause}

/-! ### One piece -/

lemma piece_sign (h : Token.Kind.ofPunctuation? c = some k) :
    piece limit (.behind before (c :: rest)) =
      (.token ⟨k, .text (String.ofList [c]), lineBehind before, columnBehind before⟩,
        .behind (before ++ [c]) rest) := by
  have hc := (head_of_sign h).2
  unfold piece
  simp only [Cursor.rest_behind, hc, false_and, if_false, h]
  exact congrArg _ (Cursor.forward_behind before [c] rest)

/-- What a run of digits is read as. -/
def numeral (limit : Nat) (s : List Char) : Except LexCause Nat :=
  if !Text.Integer.isWritable limit then .error .unwritableLimit
  else if limit < value s then .error (.numberTooLarge s limit)
  else .ok (value s)

lemma readNumber_behind (hd : ∀ d ∈ s, isDigit d = true) (hr : Stops isDigit rest) :
    readNumber limit (.behind before (s ++ rest)) =
      (match numeral limit s with
        | .error cause => .error ⟨cause, lineBehind before, columnBehind before⟩
        | .ok n => .ok ⟨.number, .number n, lineBehind before, columnBehind before⟩,
        .behind (before ++ s) rest) := by
  have hdigits : digits (s ++ rest) = s := takeWhile_append_of_stops hd hr
  unfold readNumber numeral
  simp only [Cursor.rest_behind, hdigits, Cursor.forward_behind, exceeds_eq hd, value_dropWhile,
    decide_eq_true_eq]
  split
  · rfl
  · split <;> rfl

lemma piece_digits (hne : s ≠ []) (hd : ∀ d ∈ s, isDigit d = true) (hr : Stops isDigit rest) :
    piece limit (.behind before (s ++ rest)) =
      (match numeral limit s with
        | .error cause => .fault ⟨cause, lineBehind before, columnBehind before⟩
        | .ok n => .token ⟨.number, .number n, lineBehind before, columnBehind before⟩,
        .behind (before ++ s) rest) := by
  obtain ⟨c, t, rfl⟩ := List.exists_cons_of_ne_nil hne
  obtain ⟨-, hc, hk⟩ := head_of_digit (hd c (by simp))
  have hnumber : readNumber limit (.behind before (c :: t ++ rest)) = _ := readNumber_behind hd hr
  rw [List.cons_append] at hnumber ⊢
  unfold piece
  simp only [Cursor.rest_behind, hc, false_and, if_false, hk, hd c (by simp), if_true, hnumber]
  cases numeral limit (c :: t) <;> rfl

lemma numeral_of_le (hl : Text.Integer.isWritable limit = true) (hv : value s ≤ limit) :
    numeral limit s = .ok (value s) := by
  simp [numeral, hl, Nat.not_lt.mpr hv]

lemma numeral_of_lt (hl : Text.Integer.isWritable limit = true) (hv : limit < value s) :
    numeral limit s = .error (.numberTooLarge s limit) := by
  simp [numeral, hl, hv]

lemma numeral_of_not_isWritable (hl : Text.Integer.isWritable limit = false) :
    numeral limit s = .error .unwritableLimit := by
  simp [numeral, hl]

lemma piece_word (h : isWordStart c = true) :
    piece limit (.behind before (c :: rest)) =
      (.token (readWord (.behind before (c :: rest))).1,
        (readWord (.behind before (c :: rest))).2) := by
  obtain ⟨-, hc, hk⟩ := head_of_wordStart h
  have hd := isDigit_eq_false_of_isWordStart h
  unfold piece
  simp only [Cursor.rest_behind, hc, false_and, if_false, hk, hd, Bool.false_eq_true, h, if_true]

lemma piece_of_word (hc : isWordStart c = true) (hs : word (c :: s ++ rest) = c :: s)
    (hk : k.Names (String.ofList (c :: s))) :
    piece limit (.behind before (c :: s ++ rest)) =
      (.token ⟨k, .text (String.ofList (c :: s)), lineBehind before, columnBehind before⟩,
        .behind (before ++ c :: s) rest) := by
  rw [List.cons_append, piece_word hc]
  unfold readWord
  simp only [Cursor.rest_behind, ← List.cons_append, hs, Token.Kind.ofWord_eq_iff.mpr hk,
    Cursor.forward_behind]
  rfl

/-- **Lexemes** are read as they are. -/
lemma piece_lexeme (h : Lexeme limit rest s k content) (before : List Char) :
    piece limit (.behind before (s ++ rest)) =
      (.token ⟨k, content, lineBehind before, columnBehind before⟩,
        .behind (before ++ s) rest) := by
  cases h with
  | sign hk => exact piece_sign hk
  | number hne hd hr hl hv => rw [piece_digits hne hd hr, numeral_of_le hl hv]
  | word hc hw hr hq hk =>
    exact piece_of_word hc (word_append (isWordChar_of_mem hc hw) hr hq) hk
  | @question c w k hc hw hk =>
    refine piece_of_word hc ?_ hk
    have hword := word_append_question (isWordChar_of_mem hc hw) rest
    simpa using hword

lemma piece_opening : piece limit (.behind before ('/' :: '*' :: rest)) =
    match commentLength 0 0 rest with
    | some n => (.comment, (Cursor.behind (before ++ ['/', '*']) rest).forward n)
    | none => (.fault ⟨.unterminatedComment, lineBehind before, columnBehind before⟩,
        .behind (before ++ '/' :: '*' :: rest) []) := by
  have hin : Cursor.forward 2 (.behind before ('/' :: '*' :: rest)) =
      .behind (before ++ ['/', '*']) rest := Cursor.forward_behind before ['/', '*'] rest
  have hall : Cursor.forward rest.length (.behind (before ++ ['/', '*']) rest) =
      .behind (before ++ '/' :: '*' :: rest) [] := by
    simpa using Cursor.forward_behind (before ++ ['/', '*']) rest []
  unfold piece
  simp only [Cursor.rest_behind, List.head?_cons, and_self, if_true, skipComment, hin]
  cases commentLength 0 0 rest with
  | none =>
    simp only [hall]
    rfl
  | some n => rfl

/-- **Comments** are passed. -/
lemma piece_comment (h : Body s) (before : List Char) :
    piece limit (.behind before ('/' :: '*' :: (s ++ rest))) =
      (.comment, .behind (before ++ '/' :: '*' :: s) rest) := by
  have hlen : commentLength 0 0 (s ++ rest) = some s.length :=
    commentLength_eq_some_iff.mpr ⟨s, rest, rfl, h, rfl⟩
  rw [piece_opening, hlen]
  simp only [Cursor.forward_behind, List.append_assoc]
  rfl

/-- Where nothing starts, the piece is the fault, at this very place. -/
lemma piece_stuck (h : Stuck limit text cause) (before : List Char) :
    (piece limit (.behind before text)).1 =
      .fault ⟨cause, lineBehind before, columnBehind before⟩ := by
  cases h with
  | comment h => rw [piece_opening, commentLength_eq_none_iff.mpr h]
  | number hne hd hr hl hv => rw [piece_digits hne hd hr, numeral_of_lt hl hv]
  | limit hne hd hr hl => rw [piece_digits hne hd hr, numeral_of_not_isWritable hl]
  | @character c r hg hp hd hw ho =>
    have hno : ¬ (c = '/' ∧ r.head? = some '*') := by
      rintro ⟨rfl, hr⟩
      obtain ⟨t, rfl⟩ := List.head?_eq_some_iff.mp hr
      exact ho ⟨t, rfl⟩
    unfold piece
    simp only [Cursor.rest_behind, if_neg hno, hp, hd, hw, Bool.false_eq_true, if_false]
    rfl

/-! ### Scanning -/

lemma skipBlanks_of_stops (h : Stops isGap rest) :
    skipBlanks (.behind before rest) = .behind before rest := by
  have hnil : rest.takeWhile isGap = [] := takeWhile_append_of_stops (s := []) (by simp) h
  simp [skipBlanks, hnil, Cursor.forward]

lemma skipBlanks_blank (h : isGap c = true) :
    skipBlanks (.behind before (c :: rest)) = skipBlanks (.behind (before ++ [c]) rest) := by
  simp [skipBlanks, h, Cursor.forward, Cursor.next_behind]

lemma scan_eq (limit : Nat) (c : Cursor) : scan limit c =
    match piece limit (skipBlanks c) with
    | (.finish t, stop) => ⟨[t], stop, none⟩
    | (.fault f, stop) => ⟨[], stop, some f⟩
    | (.comment, after) => scan limit after
    | (.token t, after) => { scan limit after with tokens := t :: (scan limit after).tokens } := by
  rw [scan]
  split <;> simp_all

lemma stops_of_stuck (h : Stuck limit text cause) : Stops isGap text := by
  cases h with
  | comment => exact stops_cons (by decide)
  | number hne hd | limit hne hd =>
    obtain ⟨d, ds, rfl⟩ := List.exists_cons_of_ne_nil hne
    exact stops_cons (head_of_digit (hd d (by simp))).1
  | character hg => exact stops_cons hg

/-- A gap makes no difference but for the place. -/
lemma scan_gap (h : Gap s) :
    scan limit (.behind before (s ++ rest)) = scan limit (.behind (before ++ s) rest) := by
  induction h generalizing before with
  | nil => simp
  | @blank c r hc hr ih =>
    rw [List.cons_append, scan_eq, skipBlanks_blank hc, ← scan_eq, ih, List.append_assoc]
    rfl
  | @comment s r hs hr ih =>
    have hstop : Stops isGap ('/' :: '*' :: (s ++ (r ++ rest))) := stops_cons (by decide)
    simp only [List.cons_append, List.append_assoc]
    rw [scan_eq, skipBlanks_of_stops hstop, piece_comment hs]
    simp only [ih, List.append_assoc, List.cons_append]

/-- A lexeme adds its token. -/
lemma scan_lexeme (h : Lexeme limit rest s k content) :
    scan limit (.behind before (s ++ rest)) =
      { scan limit (.behind (before ++ s) rest) with
        tokens := ⟨k, content, lineBehind before, columnBehind before⟩ ::
          (scan limit (.behind (before ++ s) rest)).tokens } := by
  rw [scan_eq, skipBlanks_of_stops h.stops.1, piece_lexeme h]

lemma scan_end : scan limit (.behind before []) =
    { tokens := [⟨.endOfFile, .nothing, lineBehind before, columnBehind before⟩]
      stop := .behind before []
      fault := none } := by
  rw [scan_eq, skipBlanks_of_stops (by simp [Stops])]
  rfl

lemma fault_scan_stuck (h : Stuck limit text cause) :
    (scan limit (.behind before text)).fault =
      some ⟨cause, lineBehind before, columnBehind before⟩ := by
  have hp := piece_stuck h before
  rw [scan_eq, skipBlanks_of_stops (stops_of_stuck h)]
  split <;> simp_all

/-! ### Nothing else can be read -/

variable {s' rest' : List Char} {k' : Token.Kind} {content' : Token.Content}

lemma behind_inj (h : Cursor.behind s rest = .behind s' rest') : s = s' ∧ rest = rest' := by
  simp only [Cursor.behind, Cursor.mk.injEq, List.reverse_inj] at h
  exact ⟨h.1, h.2.1⟩

lemma lexeme_unique (h : Lexeme limit rest s k content) (h' : Lexeme limit rest' s' k' content')
    (he : s ++ rest = s' ++ rest') : s = s' ∧ rest = rest' ∧ k = k' ∧ content = content' := by
  have hp := piece_lexeme h []
  rw [he, piece_lexeme h' []] at hp
  simp only [Prod.mk.injEq, Piece.token.injEq, Token.mk.injEq] at hp
  obtain ⟨⟨hk, hc, -, -⟩, hb⟩ := hp
  obtain ⟨hs, hr⟩ := behind_inj hb
  exact ⟨hs.symm, hr.symm, hk.symm, hc.symm⟩

lemma body_unique (h : Body s) (h' : Body s') (he : s ++ rest = s' ++ rest') :
    s = s' ∧ rest = rest' := by
  have hp : piece 0 (.behind [] ('/' :: '*' :: (s ++ rest))) = _ := piece_comment h []
  rw [he, piece_comment h' []] at hp
  simp only [Prod.mk.injEq, true_and] at hp
  obtain ⟨hs, hr⟩ := behind_inj hp
  exact ⟨by simpa using hs.symm, hr.symm⟩

/-- Neither a blank nor a comment starts the text. -/
structure NoGap (text : List Char) : Prop where
  blank : Stops isGap text
  comment : ∀ s rest, text = '/' :: '*' :: (s ++ rest) → ¬ Body s

lemma noGap_of_lexeme (h : Lexeme limit rest s k content) : NoGap (s ++ rest) where
  blank := h.stops.1
  comment := by
    intro s' rest' he _
    exact h.stops.2 ⟨s' ++ rest', he.symm⟩

lemma noGap_of_final (h : Final limit tail) : NoGap tail := by
  rcases h with rfl | ⟨cause, h⟩
  · exact ⟨by simp [Stops], by simp⟩
  · refine ⟨stops_of_stuck h, ?_⟩
    -- a comment would be passed, and the text is not stuck there
    rintro s rest rfl hs
    have hp := piece_stuck h []
    rw [piece_comment hs] at hp
    cases hp

lemma not_final_of_lexeme (h : Lexeme limit rest s k content) : ¬ Final limit (s ++ rest) := by
  rintro (hnil | ⟨cause, hstuck⟩)
  · exact h.ne_nil (List.append_eq_nil_iff.mp hnil).1
  · have hp := piece_stuck hstuck []
    rw [piece_lexeme h] at hp
    cases hp

/-- A gap ends where no blank and no comment follows. -/
lemma gap_unique (h : Gap s) (h' : Gap s') (hr : NoGap rest) (hr' : NoGap rest')
    (he : s ++ rest = s' ++ rest') : s = s' ∧ rest = rest' := by
  induction h generalizing s' with
  | nil =>
    subst he
    cases h' with
    | nil => exact ⟨rfl, rfl⟩
    | @blank c r hc => simp [hr.blank c rfl] at hc
    | @comment s r hs => exact absurd hs (hr.comment s (r ++ rest') (by simp))
  | @blank c r hc _ ih =>
    cases h' with
    | nil =>
      subst he
      simp [hr'.blank c rfl] at hc
    | @blank c' r' hc' hg' =>
      obtain ⟨rfl, htail⟩ := List.cons.inj he
      obtain ⟨rfl, rfl⟩ := ih hg' htail
      exact ⟨rfl, rfl⟩
    | comment =>
      obtain ⟨rfl, -⟩ := List.cons.inj he
      exact absurd hc (by decide)
  | @comment s r hs _ ih =>
    cases h' with
    | nil =>
      subst he
      exact absurd hs (hr'.comment s (r ++ rest) (by simp))
    | @blank c' r' hc' =>
      obtain ⟨rfl, -⟩ := List.cons.inj he
      exact absurd hc' (by decide)
    | @comment s' r' hs' hg' =>
      simp only [List.cons_append, List.append_assoc, List.cons.injEq, true_and] at he
      obtain ⟨rfl, htail⟩ := body_unique hs hs' he
      obtain ⟨rfl, rfl⟩ := ih hg' htail
      exact ⟨rfl, rfl⟩

/-- **Uniqueness**: decompositions up to where nothing can follow are the same, and end there. -/
theorem covers_unique {d d' : Decomposition} {tail' : List Char} (h : d.Covers limit text tail)
    (hf : Final limit tail) (h' : d'.Covers limit text tail') (hf' : Final limit tail') :
    d = d' ∧ tail = tail' := by
  obtain ⟨segments, last⟩ := d
  obtain ⟨segments', last'⟩ := d'
  obtain ⟨hsplits, hlast⟩ := h
  obtain ⟨hsplits', hlast'⟩ := h'
  dsimp only at hsplits hlast hsplits' hlast'
  -- the induction is on the segments of one; those of the other follow, one by one
  generalize hrest : last ++ tail = rest at hsplits
  generalize hrest' : last' ++ tail' = rest' at hsplits'
  induction hsplits generalizing segments' with
  | nil =>
    cases hsplits' with
    | nil =>
      rw [← hrest'] at hrest
      obtain ⟨rfl, rfl⟩ := gap_unique hlast hlast' (noGap_of_final hf) (noGap_of_final hf') hrest
      exact ⟨rfl, rfl⟩
    | cons hg hs =>
      obtain ⟨-, rfl⟩ := gap_unique hlast hg (noGap_of_final hf) (noGap_of_lexeme hs) hrest
      exact absurd hf (not_final_of_lexeme hs)
  | @cons g s text rest k content segments hg hs h ih =>
    generalize he : g ++ (s ++ text) = whole at hsplits'
    cases hsplits' with
    | nil =>
      rw [← hrest'] at he
      obtain ⟨-, rfl⟩ := gap_unique hg hlast' (noGap_of_lexeme hs) (noGap_of_final hf') he
      exact absurd hf' (not_final_of_lexeme hs)
    | cons hg' hs' h' =>
      obtain ⟨rfl, htail⟩ := gap_unique hg hg' (noGap_of_lexeme hs) (noGap_of_lexeme hs') he
      obtain ⟨rfl, rfl, rfl, rfl⟩ := lexeme_unique hs hs' htail
      obtain ⟨heq, rfl⟩ := ih _ hrest h'
      obtain ⟨rfl, rfl⟩ := Decomposition.mk.inj heq
      exact ⟨rfl, rfl⟩

/-- No decomposition gets further than one after which nothing can follow. -/
lemma suffix_of_covers {d d' : Decomposition} {tail' : List Char} (h : d.Covers limit text tail)
    (hf : Final limit tail) (h' : d'.Covers limit text tail') : tail <:+ tail' := by
  obtain ⟨e, rest, he, hrest⟩ := exists_covers limit tail'
  obtain ⟨e', he'⟩ := h'.trans he
  obtain ⟨-, rfl⟩ := covers_unique h hf he' hrest
  exact ⟨e.text, he.eq_append.symm⟩

/-! ### Whole texts -/

/-- The scanner goes through the segments. -/
lemma scan_splits {segments : List Segment} (h : Splits limit text segments rest)
    (before : List Char) :
    scan limit (.behind before text) =
      { scan limit (.behind (before ++ joined segments) rest) with
        tokens := tokensBehind before segments ++
          (scan limit (.behind (before ++ joined segments) rest)).tokens } := by
  induction h generalizing before with
  | nil => simp [tokensBehind]
  | cons hg hs _ ih =>
    rw [scan_gap hg, scan_lexeme hs, ih]
    simp [tokensBehind]

lemma tokenize_eq (source : String) (limit : Nat) :
    tokenize source limit =
      match (scan limit (.behind [] source.toList)).fault with
      | some f => .error f
      | none => .ok (scan limit (.behind [] source.toList)).tokens := by
  unfold tokenize run start
  rw [Cursor.start_eq_behind]
  simp only [List.nil_append]
  cases (scan limit (.behind [] source.toList)).fault <;> rfl

lemma tokenize_of_covers {source : String} {d : Decomposition}
    (h : d.Covers limit source.toList []) : tokenize source limit = .ok d.tokens := by
  rw [tokenize_eq, scan_splits h.splits, scan_gap h.gap, scan_end]
  rfl

lemma tokenize_of_stuck {source : String} {d : Decomposition}
    (h : d.Covers limit source.toList tail) (hs : Stuck limit tail cause) :
    tokenize source limit = .error ⟨cause, lineBehind d.text, columnBehind d.text⟩ := by
  rw [tokenize_eq, scan_splits h.splits, scan_gap h.gap]
  simp only [fault_scan_stuck hs]
  rfl

lemma exists_covers_of_tokenize {source : String} {tokens : List Token}
    (h : tokenize source limit = .ok tokens) :
    ∃ d : Decomposition, d.Covers limit source.toList [] ∧ tokens = d.tokens := by
  obtain ⟨d, tail, hd, rfl | ⟨cause, hs⟩⟩ := exists_covers limit source.toList
  · rw [tokenize_of_covers hd] at h
    exact ⟨d, hd, (Except.ok.inj h).symm⟩
  · rw [tokenize_of_stuck hd hs] at h
    cases h

lemma exists_stuck_of_tokenize {source : String} {f : LexFault}
    (h : tokenize source limit = .error f) :
    ∃ (d : Decomposition) (tail : List Char), d.Covers limit source.toList tail ∧
      Stuck limit tail f.cause ∧ f.line = lineBehind d.text ∧ f.column = columnBehind d.text := by
  obtain ⟨d, tail, hd, rfl | ⟨cause, hs⟩⟩ := exists_covers limit source.toList
  · rw [tokenize_of_covers hd] at h
    cases h
  · rw [tokenize_of_stuck hd hs] at h
    obtain rfl := Except.error.inj h
    exact ⟨d, tail, hd, hs, rfl, rfl⟩

lemma kind_of_mem_segments {segments : List Segment} (h : Splits limit text segments rest) :
    ∀ s ∈ segments, s.kind ≠ .endOfFile := by
  induction h with
  | nil => simp
  | cons _ hs _ ih =>
    intro s hmem
    rcases List.mem_cons.mp hmem with rfl | hmem
    · exact hs.kind_ne_endOfFile
    · exact ih s hmem

/-- The limit has no part in where a text is stuck, if it can be written. -/
lemma Stuck.cause_ne (h : Stuck limit text cause) (hl : Text.Integer.isWritable limit = true) :
    cause ≠ .unwritableLimit := by
  rintro rfl
  cases h with
  | limit _ _ _ hl' => exact absurd hl (by rw [hl']; exact Bool.false_ne_true)

/-- **Tokens**: a text has tokens exactly when it is gaps and lexemes in turn, in one way only, and
then they are those of its lexemes and the end of the source. All other texts have a fault at the
place that no decomposition gets beyond. It is one of the text, unless the limit cannot be written:
then no numeral is a lexeme, and reading breaks off where the first one stands. -/
theorem tokenize_eq_ok_iff_covers (source : String) (limit : Nat) :
    (∀ tokens, tokenize source limit = .ok tokens ↔
      ∃ d : Decomposition, d.Covers limit source.toList [] ∧ tokens = d.tokens) ∧
    (∀ d d' : Decomposition, d.Covers limit source.toList [] → d'.Covers limit source.toList [] →
      d = d') ∧
    (∀ d : Decomposition, d.Covers limit source.toList [] →
      source.toList = d.text ∧ ∀ s ∈ d.segments, s.kind ≠ .endOfFile) ∧
    ((¬ ∃ d : Decomposition, d.Covers limit source.toList []) →
      ∃ (f : LexFault) (d : Decomposition) (tail : List Char), tokenize source limit = .error f ∧
        d.Covers limit source.toList tail ∧ Stuck limit tail f.cause ∧
        f.line = lineBehind d.text ∧ f.column = columnBehind d.text ∧
        (limit < 10 ^ Text.Integer.maxDigits → f.cause ≠ .unwritableLimit) ∧
        ∀ (d' : Decomposition) (tail' : List Char), d'.Covers limit source.toList tail' →
          tail <:+ tail') := by
  obtain ⟨d, tail, hd, hf⟩ := exists_covers limit source.toList
  refine ⟨?_, ?_, ?_, ?_⟩
  · intro tokens
    constructor
    · intro h
      rcases hf with rfl | ⟨cause, hs⟩
      · rw [tokenize_of_covers hd] at h
        exact ⟨d, hd, (Except.ok.inj h).symm⟩
      · rw [tokenize_of_stuck hd hs] at h
        cases h
    · rintro ⟨d', hd', rfl⟩
      exact tokenize_of_covers hd'
  · intro d d' h h'
    exact (covers_unique h (.inl rfl) h' (.inl rfl)).1
  · intro d h
    exact ⟨by simpa using h.eq_append, kind_of_mem_segments h.splits⟩
  · intro hno
    rcases hf with rfl | ⟨cause, hs⟩
    · exact absurd ⟨d, hd⟩ hno
    · exact ⟨_, d, tail, tokenize_of_stuck hd hs, hd, hs, rfl, rfl,
        fun hl => hs.cause_ne (Text.Integer.isWritable_natCast_iff.mpr hl),
        fun d' tail' h' => suffix_of_covers hd (.inr ⟨cause, hs⟩) h'⟩

/-- Lexemes need no gap between them, and a gap may be a comment in a comment. -/
theorem tokenize_eq_ok_iff_covers_adjacent :
    tokenize "07si?/*(/**/*/x" 7 = .ok
      [⟨.number, .number 7, 1, 1⟩, ⟨.identifier, .text "si?", 1, 3⟩,
        ⟨.identifier, .text "x", 1, 15⟩, ⟨.endOfFile, .nothing, 1, 16⟩] := by
  have hbody : Body ['(', '/', '*', '*', '/', '*', '/'] :=
    .plain (by decide) (by decide) (.comment .close .close)
  have hx : Splits 7 _ _ [] := .cons (.comment hbody .nil)
    (.word (c := 'x') (w := []) (k := .identifier) rfl (by simp) (by simp [Stops]) (by simp)
      (Token.Kind.ofWord_eq_iff.mp (by decide +kernel))) .nil
  have hsi : Splits 7 _ _ [] := .cons .nil
    (.question (c := 's') (w := ['i']) (k := .identifier) rfl (by simp [isWordChar, isWordStart])
      (Token.Kind.ofWord_eq_iff.mp (by decide +kernel))) hx
  have hdigits : ∀ d ∈ ['0', '7'], isDigit d = true := by simp [isDigit]
  have hall := Splits.cons .nil
    (.number (by simp) hdigits (by simp [Stops, isDigit]) rfl
      (show value ['0', '7'] ≤ 7 by decide)) hsi
  exact ((tokenize_eq_ok_iff_covers _ _).1 _).mpr ⟨⟨_, []⟩, ⟨hall, .nil⟩, rfl⟩

/-- Not even a digit is read with a limit that cannot be written. -/
lemma tokenize_digit (hl : Text.Integer.isWritable limit = false) :
    tokenize "1" limit = .error ⟨.unwritableLimit, 1, 1⟩ := by
  have hd : ∀ d ∈ ['1'], isDigit d = true := by simp [isDigit]
  have hstuck : Stuck limit (['1'] ++ []) .unwritableLimit :=
    .limit (by simp) hd (by simp [Stops]) hl
  have hcovers : Decomposition.Covers limit ⟨[], []⟩ "1".toList ['1'] := ⟨.nil, .nil⟩
  exact tokenize_of_stuck hcovers hstuck

/-- **A limit of too many digits**: the numeral is far below it, and is no token all the same. -/
theorem tokenize_below_unwritable_limit :
    value ['1'] ≤ 10 ^ Text.Integer.maxDigits ∧
      tokenize "1" (10 ^ Text.Integer.maxDigits) = .error ⟨.unwritableLimit, 1, 1⟩ :=
  ⟨Nat.one_le_pow _ _ (by omega), tokenize_digit Text.Integer.isWritable_pow⟩

end Trazo.Lexer
