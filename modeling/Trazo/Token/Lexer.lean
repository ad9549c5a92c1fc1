import Trazo.Token
import Trazo.Token.Cursor
import Trazo.Diagnostic

/-!
From source text to tokens.

Between tokens stand blanks and comments, and comments nest. A token is a sign, a run of digits
whose number is within the limit, or a word with at most one question mark at its end. Reading
stops at the first place where none of these begins.
-/

namespace Trazo

/-- Why a text is no sequence of tokens. The last is no fault of the text: numerals are compared
with the digits of the limit, and these cannot be written. -/
inductive LexCause
  | unterminatedComment
  | numberTooLarge (digits : List Char) (limit : Nat)
  | unexpectedCharacter (c : Char)
  | unwritableLimit
  deriving DecidableEq

/-- A cause and the place it is reported at. -/
structure LexFault where
  cause : LexCause
  line : Nat
  column : Nat
  deriving DecidableEq

namespace LexCause

/-- At most twenty digits of a numeral are shown. -/
def shown (ds : List Char) : String :=
  if ds.length ≤ 20 then String.ofList ds else String.ofList (ds.take 20) ++ "..."

/-- A character that is not plain ASCII is shown by its code. -/
def display (c : Char) : String :=
  if 32 ≤ c.toNat && c.toNat ≤ 126 then String.ofList [c] else "\\u" ++ Text.hex 4 c.toNat

def message : LexCause → String
  | .unterminatedComment => "Unterminated comment"
  | .numberTooLarge ds _ => "Number too large (" ++ shown ds ++ ")"
  | .unexpectedCharacter c => "Unexpected character '" ++ display c ++ "'"
  | .unwritableLimit => Text.Integer.unwritableMessage

def hint? : LexCause → Option String
  | .unterminatedComment =>
    some "Every '/*' needs a matching '*/'. Nested comments must be closed too."
  | .numberTooLarge _ limit => some ("Numbers cannot be greater than " ++ toString limit ++ ".")
  | .unexpectedCharacter _ =>
    some ("Valid characters are letters (a-z, A-Z), digits (0-9), '_', symbols '\x7b', '\x7d', " ++
      "'(', ')' and '?' at the end of a sensor name.")
  | .unwritableLimit => none

end LexCause

def LexFault.diagnostic (f : LexFault) : Diagnostic where
  kind := .lexical
  message := f.cause.message
  line := some f.line
  column := some f.column
  hint := f.cause.hint?

namespace Lexer

/-! ### Character classes -/

def isGap (c : Char) : Bool := c = ' ' || c = '\t' || c = '\r' || c = '\n'

def isWordStart (c : Char) : Bool :=
  ('a' ≤ c && c ≤ 'z') || ('A' ≤ c && c ≤ 'Z') || c = '_'

def isDigit (c : Char) : Bool := '0' ≤ c && c ≤ '9'

def isWordChar (c : Char) : Bool := isWordStart c || isDigit c

/-! ### Lexemes at the start of a text -/

/-- The length of a comment after its opening sign: `depth` more comments are open around it, and
`n` characters have been passed. -/
def commentLength (depth n : Nat) : List Char → Option Nat
  | '/' :: '*' :: r => commentLength (depth + 1) (n + 2) r
  | '*' :: '/' :: r =>
    match depth with
    | 0 => some (n + 2)
    | d + 1 => commentLength d (n + 2) r
  | _ :: r => commentLength depth (n + 1) r
  | [] => none

def digits (cs : List Char) : List Char := cs.takeWhile isDigit

/-- A word, with the question mark that follows it. -/
def word (cs : List Char) : List Char :=
  let w := cs.takeWhile isWordChar
  if (cs.drop w.length).head? = some '?' then w ++ ['?'] else w

/-- The number that ASCII digits write. -/
def value (ds : List Char) : Nat := Text.ofDigits (ds.map fun c => c.toNat - '0'.toNat)

/-- Whether a numeral exceeds the limit. Its length is compared first, so that no number longer
than the limit is ever computed. -/
def exceeds (limit : Nat) (ds : List Char) : Bool :=
  let significant := ds.dropWhile (· = '0')
  significant.length > (Nat.toDigits 10 limit).length || value significant > limit

/-! ### Scanners -/

def token (c : Cursor) (kind : Token.Kind) (content : Token.Content) : Token :=
  ⟨kind, content, c.line, c.column⟩

def fault (c : Cursor) (cause : LexCause) : LexFault := ⟨cause, c.line, c.column⟩

def skipBlanks (c : Cursor) : Cursor := c.forward (c.rest.takeWhile isGap).length

/-- Passes two characters for the opening sign, then the rest of the comment. -/
def skipComment (c : Cursor) : Except LexFault Unit × Cursor :=
  let inside := c.forward 2
  match commentLength 0 0 inside.rest with
  | some n => (.ok (), inside.forward n)
  | none => (.error (fault c .unterminatedComment), inside.forward inside.rest.length)

def readNumber (limit : Nat) (c : Cursor) : Except LexFault Token × Cursor :=
  let ds := digits c.rest
  let after := c.forward ds.length
  if !Text.Integer.isWritable limit then (.error (fault c .unwritableLimit), after)
  else if exceeds limit ds then (.error (fault c (.numberTooLarge ds limit)), after)
  else (.ok (token c .number (.number (value (ds.dropWhile (· = '0'))))), after)

def readWord (c : Cursor) : Token × Cursor :=
  let w := word c.rest
  let s := String.ofList w
  (token c (.ofWord s) (.text s), c.forward w.length)

/-! ### One piece at a time -/

/-- What stands at a cursor: a comment, a token, the end of the source, or a fault. -/
inductive Piece
  | comment
  | token (t : Token)
  | finish (t : Token)
  | fault (f : LexFault)

/-- The piece at a cursor that stands on no blank, and the cursor after it. -/
def piece (limit : Nat) (c : Cursor) : Piece × Cursor :=
  match c.rest with
  | [] => (.finish (token c .endOfFile .nothing), c)
  | ch :: r =>
    if ch = '/' ∧ r.head? = some '*' then
      match skipComment c with
      | (.ok _, after) => (.comment, after)
      | (.error f, stop) => (.fault f, stop)
    else
      match Token.Kind.ofPunctuation? ch with
      | some k => (.token (token c k (.text (String.ofList [ch]))), c.forward 1)
      | none =>
        if isDigit ch then
          match readNumber limit c with
          | (.ok t, after) => (.token t, after)
          | (.error f, stop) => (.fault f, stop)
        else if isWordStart ch then (.token (readWord c).1, (readWord c).2)
        else (.fault (fault c (.unexpectedCharacter ch)), c)

theorem length_rest_forward_lt {c : Cursor} {n : Nat} {ch : Char} {r : List Char}
    (h : c.rest = ch :: r) (hn : 0 < n) : (c.forward n).rest.length < c.rest.length := by
  simp only [Cursor.rest_forward, List.length_drop, h, List.length_cons]
  omega

theorem length_rest_skipBlanks_le (c : Cursor) : (skipBlanks c).rest.length ≤ c.rest.length := by
  simp [skipBlanks]

theorem length_rest_skipComment_lt {c : Cursor} {ch : Char} {r : List Char}
    (h : c.rest = ch :: r) : (skipComment c).2.rest.length < c.rest.length := by
  have h2 := length_rest_forward_lt h (n := 2) (by omega)
  unfold skipComment
  dsimp only
  split <;> simp only [Cursor.rest_forward, List.length_drop] at h2 ⊢ <;> omega

theorem length_rest_readNumber_lt {limit : Nat} {c : Cursor} {ch : Char} {r : List Char}
    (h : c.rest = ch :: r) (hd : isDigit ch = true) :
    (readNumber limit c).2.rest.length < c.rest.length := by
  have hn : 0 < (digits c.rest).length := by simp [digits, h, hd]
  have := length_rest_forward_lt h hn
  unfold readNumber
  dsimp only
  split
  · exact this
  · split <;> exact this

theorem length_rest_readWord_lt {c : Cursor} {ch : Char} {r : List Char}
    (h : c.rest = ch :: r) (hw : isWordStart ch = true) :
    (readWord c).2.rest.length < c.rest.length := by
  refine length_rest_forward_lt h ?_
  have : isWordChar ch = true := by simp [isWordChar, hw]
  unfold word
  dsimp only
  split <;> simp [h, this]

/-- A comment or a token takes at least one character. -/
theorem length_rest_piece_lt {limit : Nat} {c stop : Cursor} {p : Piece}
    (h : piece limit c = (p, stop)) (hp : p = .comment ∨ ∃ t, p = .token t) :
    stop.rest.length < c.rest.length := by
  unfold piece at h
  split at h
  · simp only [Prod.mk.injEq] at h
    rcases hp with rfl | ⟨t, rfl⟩ <;> simp at h
  · rename_i ch r hr
    split at h
    · have := length_rest_skipComment_lt hr
      split at h <;> simp_all
    · split at h
      · have := length_rest_forward_lt hr (n := 1) (by omega)
        simp_all
      · split at h
        · rename_i hd
          have := @length_rest_readNumber_lt limit _ _ _ hr hd
          split at h <;> simp_all
        · split at h
          · rename_i hw
            have := length_rest_readWord_lt hr hw
            simp_all
          · simp only [Prod.mk.injEq] at h
            rcases hp with rfl | ⟨t, rfl⟩ <;> simp at h

/-! ### Whole texts -/

/-- Tokens read, the place where reading stopped, and the fault that stopped it. -/
structure Scan where
  tokens : List Token
  stop : Cursor
  fault : Option LexFault

/-- All tokens from a cursor on, ending with the end of the source. -/
def scan (limit : Nat) (c : Cursor) : Scan :=
  match _h : piece limit (skipBlanks c) with
  | (.finish t, stop) => ⟨[t], stop, none⟩
  | (.fault f, stop) => ⟨[], stop, some f⟩
  | (.comment, after) => scan limit after
  | (.token t, after) =>
    let s := scan limit after
    { s with tokens := t :: s.tokens }
termination_by c.rest.length
decreasing_by
  all_goals
    refine Nat.lt_of_lt_of_le (length_rest_piece_lt _h ?_) (length_rest_skipBlanks_le c)
    simp

end Lexer

/-- A lexer at work: where it stands, the tokens it has read, and the limit on numbers. -/
structure Lexer where
  cursor : Cursor
  tokens : List Token
  limit : Nat

namespace Lexer

def start (source : String) (limit : Nat) : Lexer := ⟨.start source.toList, [], limit⟩

/-- Reads to the end, or to the first fault; tokens read before it are kept. -/
def run (l : Lexer) : Except LexFault (List Token) × Lexer :=
  let s := scan l.limit l.cursor
  let l := { l with cursor := s.stop, tokens := l.tokens ++ s.tokens }
  match s.fault with
  | some f => (.error f, l)
  | none => (.ok l.tokens, l)

end Lexer

/-- The tokens of a source text. -/
def tokenize (source : String) (limit : Nat) : Except LexFault (List Token) :=
  (Lexer.start source limit).run.1

end Trazo
