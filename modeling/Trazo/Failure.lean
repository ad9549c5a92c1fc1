import Trazo.Board
import Trazo.Program.Parser

/-!
What can stop the interpreter: a diagnostic for the author of the program, a value of the wrong
form, an integer that cannot be written, cells that a board does not have, a pause without end, or
an exception of the host that watches a run.
-/

namespace Trazo

/-- Why an operation has no result. `ε` holds the exceptions of the host. -/
inductive Failure (ε : Type)
  | diagnostic (d : Diagnostic)
  | integer (f : Text.Integer.Fault)
  /-- An integer with too many digits was to be written, in the text of `d` if there is one. -/
  | unwritable (d : Option Diagnostic)
  | noCount
  | noEnd
  | unknownStatement (kind : String)
  | grid (f : GridFault)
  | endlessPause
  | raised (e : ε)
  deriving DecidableEq

namespace Failure

variable {ε : Type}

def diagnostic? : Failure ε → Option Diagnostic
  | .diagnostic d => some d
  | _ => none

/-- A diagnostic is not raised before its text is written, and so are the integers in it. -/
def report (numbers : List Int) (d : Diagnostic) : Failure ε :=
  if numbers.all Text.Integer.isWritable then .diagnostic d else .unwritable (some d)

theorem report_of_writable {numbers : List Int}
    (h : ∀ n ∈ numbers, Text.Integer.isWritable n = true) (d : Diagnostic) :
    (report numbers d : Failure ε) = .diagnostic d := if_pos (List.all_eq_true.mpr h)

theorem report_cases (numbers : List Int) (d : Diagnostic) :
    (report numbers d : Failure ε) = .diagnostic d ∨
      (report numbers d : Failure ε) = .unwritable (some d) := by
  unfold report
  split
  · exact .inl rfl
  · exact .inr rfl

theorem report_eq_diagnostic {numbers : List Int} {d d' : Diagnostic}
    (h : (report numbers d : Failure ε) = .diagnostic d') : d = d' := by
  rcases report_cases (ε := ε) numbers d with hd | hd
  · exact diagnostic.inj (hd.symm.trans h)
  · cases hd.symm.trans h

def ofLexFault (f : LexFault) : Failure ε :=
  match f.cause with
  | .unwritableLimit => .unwritable none
  | _ => .diagnostic f.diagnostic

def ofTokenFault : Program.TokenFault → Failure ε
  | .noEnd => .noEnd
  | .parse (.grammar f) => .report f.numbers f.diagnostic
  | .parse (.count (.text f)) => .integer f
  | .parse (.count .missing) => .noCount
  | .parse .unwritable => .unwritable none

def ofParseFault (f : ParseFault) : Failure ε := ofTokenFault (.parse f)

def ofBoardFault (f : BoardFault) : Failure ε := .report f.numbers f.diagnostic

def ofBoardFailure : BoardFailure → Failure ε
  | .refused f => .ofBoardFault f
  | .grid f => .grid f

end Failure

namespace Program

/-- Why a source text is no program. -/
inductive SourceFault
  | lexical (f : LexFault)
  | tokens (f : TokenFault)
  deriving DecidableEq

def SourceFault.failure {ε : Type} : SourceFault → Failure ε
  | .lexical f => .ofLexFault f
  | .tokens f => .ofTokenFault f

/-- The program that a source text writes, numbers and nesting within the limits. -/
def ofSource (source : String) (maxNumber maxNesting : Nat) : Except SourceFault Program :=
  match tokenize source maxNumber with
  | .error f => .error (.lexical f)
  | .ok tokens => (ofTokens tokens maxNesting).mapError .tokens

end Program

end Trazo
