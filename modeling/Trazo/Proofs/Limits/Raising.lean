import Trazo.Proofs.Token.Scan
import Trazo.Settings

/-!
The limits of the settings, and the tokens of a text when the greatest number is raised.

A diagnostic may tell of a limit. A text that has none about its numbers is decomposed in the same
way, and stops at the same place, whatever larger numbers are allowed, as long as the limit can
still be written.
-/

namespace Trazo

/-- What the settings limit in sources and runs. -/
inductive Limit
  | number | nesting | steps | depth | repeats
  deriving DecidableEq

def Settings.limit (s : Settings) : Limit → Nat
  | .number => s.maxNumber
  | .nesting => s.maxNesting
  | .steps => s.maxSteps
  | .depth => s.maxDepth
  | .repeats => s.maxRepeat

/-- The settings with every limit raised by what `r` says. -/
def Settings.raised (s : Settings) (r : Limit → Nat) : Settings :=
  { s with
    maxNumber := s.maxNumber + r .number
    maxNesting := s.maxNesting + r .nesting
    maxSteps := s.maxSteps + r .steps
    maxDepth := s.maxDepth + r .depth
    maxRepeat := s.maxRepeat + r .repeats }

lemma Settings.limit_raised (s : Settings) (r : Limit → Nat) (l : Limit) :
    (s.raised r).limit l = s.limit l + r l := by
  cases l <;> rfl

/-- The limit that a diagnostic tells of. -/
def Diagnostic.limit? (d : Diagnostic) : Option Limit :=
  match d.kind with
  | .lexical =>
    if "Number too large (".toList.isPrefixOf d.message.toList then some .number else none
  | .grammatical .. => if d.message = "Blocks nested too deeply" then some .nesting else none
  | .stepLimit _ => some .steps
  | .recursionLimit .. => some .depth
  | .repeatLimit .. => some .repeats
  | _ => none

namespace Lexer

variable {limit limit' n : Nat} {s text tail rest : List Char} {cause : LexCause} {source : String}

lemma limit?_numberTooLarge (ds : List Char) (line column : Nat) :
    (LexFault.mk (.numberTooLarge ds limit) line column).diagnostic.limit? = some .number := by
  have hmessage : (LexCause.numberTooLarge ds limit).message =
      "Number too large (" ++ (LexCause.shown ds ++ ")") := String.append_assoc
  have hstart : "Number too large (".toList <+: (LexCause.numberTooLarge ds limit).message.toList :=
    ⟨_, (hmessage ▸ String.toList_append).symm⟩
  exact if_pos (List.isPrefixOf_iff_prefix.mpr hstart)

/-- The larger limit allows all that the smaller one allows. -/
structure Extends (limit limit' : Nat) : Prop where
  le : limit ≤ limit'
  writable : Text.Integer.isWritable limit = true → Text.Integer.isWritable limit' = true

lemma Extends.isWritable_eq (h : Extends limit limit') :
    Text.Integer.isWritable limit = Text.Integer.isWritable limit' :=
  Bool.eq_iff_iff.mpr ⟨h.writable, Text.Integer.isWritable_of_le h.le⟩

lemma Lexeme.mono {k : Token.Kind} {content : Token.Content} (hle : Extends limit limit')
    (h : Lexeme limit rest s k content) : Lexeme limit' rest s k content := by
  cases h with
  | sign hk => exact .sign hk
  | number hne hd hr hl hv => exact .number hne hd hr (hle.writable hl) (hv.trans hle.le)
  | word hc hw hr hq hk => exact .word hc hw hr hq hk
  | question hc hw hk => exact .question hc hw hk

lemma Splits.mono {segments : List Segment} (hle : Extends limit limit')
    (h : Splits limit text segments rest) : Splits limit' text segments rest := by
  induction h with
  | nil => exact .nil
  | cons hg hs _ ih => exact .cons hg (hs.mono hle) ih

lemma Decomposition.Covers.mono {d : Decomposition} (hle : Extends limit limit')
    (h : d.Covers limit text tail) : d.Covers limit' text tail :=
  ⟨h.splits.mono hle, h.gap⟩

/-- Only a number can be stuck under one limit and not under a larger one. -/
lemma Stuck.mono (hle : Extends limit limit') (h : Stuck limit text cause) :
    Stuck limit' text cause ∨ ∃ ds, cause = .numberTooLarge ds limit := by
  cases h with
  | comment h => exact .inl (.comment h)
  | limit hne hd hr hl => exact .inl (.limit hne hd hr (hle.isWritable_eq ▸ hl))
  | number => exact .inr ⟨_, rfl⟩
  | character hg hp hd hw ho => exact .inl (.character hg hp hd hw ho)

/-- A text that does not fail because of a number is read in the same way under a larger limit. -/
theorem tokenize_raised (hle : Extends limit (limit + n))
    (h : ∀ f, tokenize source limit = .error f →
      f.diagnostic.limit? = some .number → f.cause ≠ .unwritableLimit → n = 0) :
    tokenize source (limit + n) = tokenize source limit := by
  obtain ⟨d, tail, hd, rfl | ⟨cause, hs⟩⟩ := exists_covers limit source.toList
  · rw [tokenize_of_covers hd, tokenize_of_covers (hd.mono hle)]
  · rcases hs.mono hle with hs' | ⟨ds, rfl⟩
    · rw [tokenize_of_stuck hd hs, tokenize_of_stuck (hd.mono hle) hs']
    · rw [h _ (tokenize_of_stuck hd hs) (limit?_numberTooLarge ..) (by simp), Nat.add_zero]

end Lexer

end Trazo
