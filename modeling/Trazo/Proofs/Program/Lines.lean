import Mathlib
import Trazo.Proofs.Program.RoundTrip

/-!
Where the programs and the faults of a source text stand: on its lines.

All tokens do, so the program that they write does too. A fault is reported there, as long as the
text of the diagnostic can be written, and with limits of not too many digits it can.
-/

namespace Trazo

/-! ### Lines of a text -/

/-- The lines of a text, from the first to the one it ends on. -/
def linesOf (source : String) : Set Int := Set.Icc 1 (lineBehind source.toList)

variable {source : String} {limit : Nat} {tokens : List Token}

lemma lineBehind_mem_linesOf {text : List Char} (h : text <+: source.toList) :
    (lineBehind text : Int) ∈ linesOf source := by
  have hcount : text.count '\n' ≤ source.toList.count '\n' := h.sublist.count_le '\n'
  rw [linesOf, Set.mem_Icc]
  simp only [lineBehind]
  omega

lemma exists_prefix_of_mem_tokensBehind {segments : List Lexer.Segment} {before : List Char}
    {t : Token} (h : t ∈ Lexer.tokensBehind before segments) :
    ∃ text, text <+: before ++ Lexer.joined segments ∧ t.line = lineBehind text := by
  induction segments generalizing before with
  | nil => cases h
  | cons s segments ih =>
    rcases List.mem_cons.mp h with rfl | h
    · refine ⟨before ++ s.gap, ?_, rfl⟩
      simp [Lexer.joined_cons]
    · obtain ⟨text, htext, hline⟩ := ih h
      refine ⟨text, ?_, hline⟩
      simpa [Lexer.joined_cons] using htext

/-- The tokens of a text stand on its lines. -/
lemma line_of_mem_tokenize (h : tokenize source limit = .ok tokens) :
    ∀ t ∈ tokens, t.line ∈ linesOf source := by
  obtain ⟨d, hd, rfl⟩ := Lexer.exists_covers_of_tokenize h
  have hsource : source.toList = Lexer.joined d.segments ++ d.last := by
    simpa [Lexer.Decomposition.text] using hd.eq_append
  intro t ht
  rcases List.mem_append.mp ht with ht | ht
  · obtain ⟨text, htext, hline⟩ := exists_prefix_of_mem_tokensBehind ht
    rw [hline]
    refine lineBehind_mem_linesOf (htext.trans ?_)
    rw [hsource]
    exact List.prefix_append _ _
  · obtain rfl := List.mem_singleton.mp ht
    refine lineBehind_mem_linesOf ?_
    rw [hsource]
    exact List.prefix_rfl

/-- So does a fault of its characters. -/
lemma line_of_tokenize_error {f : LexFault} (h : tokenize source limit = .error f) :
    (f.line : Int) ∈ linesOf source := by
  obtain ⟨d, tail, hd, -, hline, -⟩ := Lexer.exists_stuck_of_tokenize h
  rw [hline]
  refine lineBehind_mem_linesOf ?_
  rw [hd.eq_append]
  exact List.prefix_append _ _

/-- The diagnostic is about a line of `L`. -/
def Diagnostic.IsOn (L : Set Int) (d : Diagnostic) : Prop := ∃ line ∈ L, d.line = some line

namespace Program

/-- The limits that a text is read with, and the number of its lines, can be written. -/
structure Tellable (source : String) (limit cap : Nat) : Prop where
  limit : Text.Integer.isWritable limit = true
  cap : Text.Integer.isWritable cap = true
  lines : Text.Integer.isWritable (lineBehind source.toList) = true

/-- A fault of the text: it has a diagnostic about one of the lines, of the kind that faults of
texts have. -/
structure Blames (source : String) (f : SourceFault) (d : Diagnostic) : Prop where
  failure : ∀ ε, (f.failure : Failure ε) = .diagnostic d
  kind : d.kind = .lexical ∨ ∃ expected found, d.kind = .grammatical expected found
  line : d.IsOn (linesOf source)

variable {cap : Nat}

lemma Tellable.of_mem_linesOf (h : Tellable source limit cap) :
    ∀ n ∈ linesOf source, Text.Integer.isWritable n = true := by
  rintro n ⟨hlow, hhigh⟩
  lift n to Nat using by omega
  exact Text.Integer.isWritable_of_le (by omega) h.lines

lemma lexical_cases {f : LexFault} (h : tokenize source limit = .error f) :
    (∃ d, Blames source (.lexical f) d) ∨
      (∀ ε, ((SourceFault.lexical f).failure : Failure ε) = .unwritable none) ∧
        ¬ Tellable source limit cap := by
  obtain ⟨_, _, -, hstuck, -⟩ := Lexer.exists_stuck_of_tokenize h
  by_cases hcause : f.cause = .unwritableLimit
  · refine .inr ⟨fun ε => ?_, fun ht => hstuck.cause_ne ht.limit hcause⟩
    rw [SourceFault.failure, Failure.ofLexFault, hcause]
  · refine .inl ⟨f.diagnostic, fun ε => ?_, .inl rfl, f.line, line_of_tokenize_error h, rfl⟩
    simp [SourceFault.failure, Failure.ofLexFault]

lemma grammatical_cases {e : ParseFault} (h : tokenize source limit = .ok tokens)
    (he : ofTokens tokens cap = .error (.parse e)) :
    (∃ d, Blames source (.tokens (.parse e)) d) ∨
      (∃ d, ∀ ε, ((SourceFault.tokens (.parse e)).failure : Failure ε) = .unwritable d) ∧
        ¬ Tellable source limit cap := by
  -- the numbers of the tokens can be written, whatever the limit is
  have hdraws : ∀ t ∈ tokens, t.Draws (linesOf source) (writable ∪ {(cap : Int)}) := fun t ht =>
    ⟨line_of_mem_tokenize h t ht, fun n hn => .inl ((within_of_tokenize h t ht).mem_writable n hn)⟩
  have hreported := (draws_ofTokens hdraws (.inr rfl)).2 e he default
  rcases ofTokens_cases (ended_of_tokenize h) cap with ⟨r, hr, -⟩ | ⟨e', he', hcases⟩
  · rw [he] at hr
    cases hr
  obtain rfl : e = e' := by simpa [he] using he'
  rcases hcases with ⟨f, rfl⟩ | rfl
  · by_cases hall : ∀ n ∈ f.numbers, Text.Integer.isWritable n = true
    · exact .inl ⟨f.diagnostic, fun ε => Failure.report_of_writable hall _, .inr ⟨_, _, rfl⟩,
        f.line, hreported.line f rfl, rfl⟩
    · refine .inr ⟨⟨some f.diagnostic, fun ε => if_neg fun h => hall (List.all_eq_true.mp h)⟩,
        fun ht => hall fun n hn => ?_⟩
      rcases hreported.numbers f rfl n hn with hn | hn | rfl
      · exact ht.of_mem_linesOf n hn
      · exact hn
      · exact ht.cap
  · obtain ⟨n, hn | rfl, hno⟩ := hreported.unwritable rfl
    · exact absurd hn (by simp [writable, hno])
    · exact .inr ⟨⟨none, fun _ => rfl⟩, fun ht =>
        Bool.false_ne_true (hno.symm.trans ht.cap)⟩

/-- **Source texts**: a text gives a program that stands on its lines and has counts that can be
written, or a diagnostic about one of the lines. Only where limits or lines cannot be written may
there be neither. -/
theorem ofSource_cases (source : String) (limit cap : Nat) :
    (∃ p main, ofSource source limit cap = .ok p ∧ p.main = some main ∧
        p.StandsOn (linesOf source) ∧ p.Countable) ∨
      ∃ f, ofSource source limit cap = .error f ∧
        ((∃ d, Blames source f d) ∨
          (∃ d, ∀ ε, (f.failure : Failure ε) = .unwritable d) ∧ ¬ Tellable source limit cap) := by
  unfold ofSource
  cases ht : tokenize source limit with
  | error f =>
    exact .inr ⟨_, rfl, (lexical_cases ht).imp_right fun h => ⟨⟨_, h.1⟩, h.2⟩⟩
  | ok tokens =>
    rcases ofTokens_cases (ended_of_tokenize ht) cap with ⟨p, hp, hw, -, hcount⟩ | ⟨e, he, -⟩
    · obtain ⟨is, main, -, -, hmain⟩ := hw
      have hdraws : ∀ t ∈ tokens, t.Draws (linesOf source) Set.univ := fun t ht' =>
        ⟨line_of_mem_tokenize ht t ht', fun _ _ => Set.mem_univ _⟩
      have hstands := (draws_ofTokens hdraws (Set.mem_univ _)).1 p hp
      refine .inl ⟨p, main, ?_, by rw [hmain], hstands, hcount⟩
      simp only [hp, Except.mapError]
    · refine .inr ⟨.tokens (.parse e), ?_, grammatical_cases ht he⟩
      simp only [he, Except.mapError]

end Program

end Trazo
