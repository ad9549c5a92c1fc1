import Trazo.Program
import Trazo.Similarity
import Trazo.Token.Lexer

/-!
From tokens to programs.

    Program    = { MainBlock | Procedure } end            (exactly one MainBlock)
    MainBlock  = "programa" "{" Statements "}"
    Procedure  = "procedimiento" name "(" ")" "{" Statements "}"
    Statements = { Statement }
    Statement  = command
               | "repetir" number "veces" "{" Statements "}"
               | "si" "(" sensor ")" "{" Statements "}" [ "sino" "{" Statements "}" ]
               | name "(" ")"

Each production reads tokens from the left and stops at the first that does not fit. How deep
blocks may nest is limited, and the recursion follows the room that is left.
-/

namespace Trazo

/-! ### What can be wrong -/

/-- Why tokens are no program. -/
inductive SyntaxCause
  | expected (wanted : Token.Kind) (advice : String)
  | repeatedMain (firstLine : Int)
  | strayElement
  | missingMain
  | unclosedBlock (what : String)
  | nestedTooDeeply (cap : Int)
  | notAnInstruction
  | misspelledInstruction
  | invalidCondition
  deriving DecidableEq

/-- A cause, the token it was found at, and the place it is reported at. -/
structure SyntaxFault where
  cause : SyntaxCause
  found : Token
  line : Int
  column : Option Int
  deriving DecidableEq

/-- Why the number of a loop is no number. -/
inductive CountFault
  | text (f : Text.Integer.Fault)
  | missing
  deriving DecidableEq

def CountFault.message : CountFault → String
  | .text f => f.message
  | .missing =>
    "int() argument must be a string, a bytes-like object or a real number, not 'NoneType'"

/-- Why parsing stopped. All but the first need tokens that no source text has: a count that is no
number, or a number with too many digits where the text of a token is asked for. -/
inductive ParseFault
  | grammar (f : SyntaxFault)
  | count (f : CountFault)
  | unwritable
  deriving DecidableEq

namespace SyntaxCause

def validInstructions : String :=
  "Valid instructions:\n" ++
  "    - Movement: MoverArriba, MoverAbajo, MoverDerecha, MoverIzquierda\n" ++
  "    - Painting: PintarNegro, PintarRojo, PintarVerde, Limpiar\n" ++
  "    - Control: repetir N veces \x7b ... \x7d, si (...) \x7b ... \x7d sino \x7b ... \x7d\n" ++
  "    - Calls: procedureName()"

def validSensors : String :=
  "Valid conditions (sensors): estaVacia?, estaPintadaDeNegro?, " ++
  "estaPintadaDeRojo?, estaPintadaDeVerde?. Example: si (estaVacia?) \x7b PintarRojo \x7d"

def message (found : Token) : SyntaxCause → String
  | .expected .. => "Syntax error"
  | .repeatedMain _ => "Duplicate 'programa' block"
  | .strayElement => "Unexpected top-level element"
  | .missingMain => "Missing 'programa' block"
  | .unclosedBlock what => "The " ++ what ++ " block was not closed"
  | .nestedTooDeeply _ => "Blocks nested too deeply"
  | .notAnInstruction => "Unrecognized instruction '" ++ found.describe ++ "'"
  | .misspelledInstruction => "Unrecognized instruction '" ++ found.content.toText ++ "'"
  | .invalidCondition => "Invalid condition '" ++ found.describe ++ "'"

def expectedNames : SyntaxCause → List String
  | .expected wanted _ => [wanted.describe]
  | .strayElement => ["'programa'", "'procedimiento'"]
  | .missingMain => ["'programa'"]
  | .unclosedBlock _ => [Token.Kind.closeBrace.describe]
  | .invalidCondition => Vocabulary.sensorWords
  | _ => []

def advice : SyntaxCause → String
  | .expected _ a => a
  | .repeatedMain firstLine =>
    "A 'programa' block was already declared on line " ++ toString firstLine ++
      ". Remove the duplicate block."
  | .strayElement =>
    "A Qdraw file holds one 'programa \x7b ... \x7d' block (required) " ++
      "and any number of 'procedimiento name() \x7b ... \x7d' declarations."
  | .missingMain => Program.missingMainHint
  | .unclosedBlock _ =>
    "A closing '\x7d' is missing at the end. Every '\x7b' needs its matching '\x7d'."
  | .nestedTooDeeply cap =>
    "At most " ++ toString cap ++ " blocks can be nested inside each other. " ++
      "Move the inner part into a procedure and call it."
  | .notAnInstruction => validInstructions
  | .misspelledInstruction => "Commands, keywords and sensors are case sensitive."
  | .invalidCondition => validSensors

/-- The integers that message and advice are written with, besides those of the token. -/
def numbers : SyntaxCause → List Int
  | .repeatedMain firstLine => [firstLine]
  | .nestedTooDeeply cap => [cap]
  | .expected .. | .strayElement | .missingMain | .unclosedBlock _ | .notAnInstruction
  | .misspelledInstruction | .invalidCondition => []

end SyntaxCause

/-- The known word that an identifier is nearest to. -/
def Token.suggestion? (t : Token) : Option String :=
  match t.kind, t.content with
  | .identifier, .text s => Similarity.suggest s
  | _, _ => none

/-- An advice, led by a suggestion when the token looks like a misspelled word. -/
def Token.hint (t : Token) (advice : String) : String :=
  match t.suggestion? with
  | none => advice
  | some s =>
    let note := "Did you mean '" ++ s ++ "'?"
    if advice.isEmpty then note else note ++ " " ++ advice

/-- The integers that the text of the diagnostic is written with. -/
def SyntaxFault.numbers (f : SyntaxFault) : List Int := f.found.content.numbers ++ f.cause.numbers

def SyntaxFault.diagnostic (f : SyntaxFault) : Diagnostic where
  kind := .grammatical f.cause.expectedNames (some f.found.describe)
  message := f.cause.message f.found
  line := some f.line
  column := f.column
  hint := some (f.found.hint f.cause.advice)

/-! ### A parser at work -/

/-- Where a parser stands: the token it looks at, those after it, how many it has passed, how many
blocks are open, and how many may be. -/
structure Parser where
  current : Token
  ahead : List Token
  index : Nat
  depth : Nat
  cap : Int
  deriving Inhabited

/-- A production: its value or a fault, and the parser after it either way. -/
def Parse (α : Type) : Type := Parser → Except ParseFault α × Parser

namespace Parse

variable {α β : Type}

protected def pure (a : α) : Parse α := fun p => (.ok a, p)

protected def bind (x : Parse α) (f : α → Parse β) : Parse β := fun p =>
  match x p with
  | (.ok a, p) => f a p
  | (.error e, p) => (.error e, p)

instance : Monad Parse where
  pure := Parse.pure
  bind := Parse.bind

def throw (f : ParseFault) : Parse α := fun p => (.error f, p)

def get : Parse Parser := fun p => (.ok p, p)

end Parse

namespace Parser

/-- A parser over tokens that end with the end of the source. -/
def ofTokens? (tokens : List Token) (cap : Int) : Option Parser :=
  match tokens with
  | [] => none
  | t :: ts =>
    if (ts.getLast?.getD t).kind = .endOfFile then some ⟨t, ts, 0, 0, cap⟩ else none

def isAt (p : Parser) (kinds : List Token.Kind) : Bool := kinds.contains p.current.kind

def atEnd (p : Parser) : Bool := p.isAt [.endOfFile]

/-- One token on. The end of the source is never passed. -/
def next (p : Parser) : Parser :=
  if p.current.kind = .endOfFile then p
  else
    match p.ahead with
    | [] => p
    | t :: ts => { p with current := t, ahead := ts, index := p.index + 1 }

/-- How many more blocks may be opened. -/
def room (p : Parser) : Nat := (p.cap - p.depth).toNat

end Parser

namespace Parse

variable {α : Type}

/-- Passes the current token and returns it. -/
def advance : Parse Token := fun p => (.ok p.current, p.next)

/-- Passes the current token if it is of one of the kinds. -/
def consumeIf (kinds : List Token.Kind) : Parse (Option Token) := fun p =>
  if p.isAt kinds then (.ok (some p.current), p.next) else (.ok none, p)

/-- A fault at token `t`. -/
def failAt (t : Token) (cause : SyntaxCause) : Parse α :=
  throw (.grammar ⟨cause, t, t.line, some t.column⟩)

/-- A fault at the current token. -/
def fail (cause : SyntaxCause) : Parse α := fun p => failAt p.current cause p

/-- A fault at the current token that is reported at a line. -/
def failOn (line : Int) (cause : SyntaxCause) : Parse α := fun p =>
  throw (.grammar ⟨cause, p.current, line, none⟩) p

/-- Passes a token of the wanted kind, or fails with an advice. -/
def expect (wanted : Token.Kind) (advice : String) : Parse Token := fun p =>
  if p.current.kind = wanted then advance p else fail (.expected wanted advice) p

/-- The content of a token as text. -/
def written (c : Token.Content) : Parse String :=
  if c.numbers.all Text.Integer.isWritable then pure c.toText else throw .unwritable

/-- Runs a production with one more block open. -/
def nested (x : Parse α) : Parse α := fun p =>
  let r := x { p with depth := p.depth + 1 }
  (r.1, { r.2 with depth := r.2.depth - 1 })

/-- Repeats an item until a token of the kinds in `stop` comes, at most `n` times. -/
def collect (stop : List Token.Kind) (item : Parse α) : Nat → Parse (List α)
  | 0 => pure []
  | n + 1 => do
    if (← get).isAt stop then pure []
    else
      let a ← item
      let rest ← collect stop item n
      pure (a :: rest)

/-! ### Productions -/

/-- A production for a block after its opening brace, given what the block belongs to and the line
that a fault is reported at. -/
abbrev BlockRule := String → Int → Parse Block

def sensor : Parse Sensor := do
  match (← get).current.kind with
  | .sensor s =>
    let _ ← advance
    pure s
  | _ => fail .invalidCondition

/-- The number that a token holds. -/
def countOf : Token.Content → Except CountFault Int
  | .number n => .ok n
  | .text s => (Text.Integer.read s).mapError .text
  | .nothing => .error .missing

def loop (block : BlockRule) : Parse Statement := do
  let start ← expect (.keyword .repetir) "Expected 'repetir'."
  let count ← expect .number
    "'repetir' must be followed by a number. Example: repetir 10 veces \x7b ... \x7d"
  let shown ← written count.content
  let _ ← expect (.keyword .veces)
    ("The number must be followed by 'veces'. Example: repetir " ++ shown ++
      " veces \x7b ... \x7d")
  let _ ← expect .openBrace
    ("'veces' must be followed by '\x7b'. Example: repetir " ++ shown ++
      " veces \x7b MoverArriba \x7d")
  let body ← block "'repetir'" start.line
  match countOf count.content with
  | .ok n => pure (.loop n body start.line)
  | .error f => throw (.count f)

def branch (block : BlockRule) : Parse Statement := do
  let start ← expect (.keyword .si) "Expected 'si'."
  let _ ← expect .openParen
    ("'si' must be followed by '(' to open the condition. " ++
      "Example: si (estaVacia?) \x7b ... \x7d")
  let s ← sensor
  let _ ← expect .closeParen
    "The condition must be closed with ')'. Example: si (estaVacia?) \x7b ... \x7d"
  let _ ← expect .openBrace
    "')' must be followed by '\x7b'. Example: si (estaVacia?) \x7b PintarRojo \x7d"
  let yes ← block "'si'" start.line
  match ← consumeIf [.keyword .sino] with
  | none => pure (.branch s yes none start.line)
  | some _ =>
    let _ ← expect .openBrace
      "'sino' must be followed by '\x7b'. Example: sino \x7b PintarNegro \x7d"
    let no ← block "'sino'" start.line
    pure (.branch s yes (some no) start.line)

/-- A call. A word that no parenthesis follows and that is nearly a known one is taken for a
misspelled instruction. -/
def call : Parse Statement := do
  let t ← expect .identifier "Expected the name of a procedure."
  let name ← written t.content
  if !(← get).isAt [.openParen] && (Similarity.suggest name).isSome then
    failAt t .misspelledInstruction
  else
    let _ ← expect .openParen
      ("Procedures are always called with parentheses. Example: " ++ name ++ "()")
    let _ ← expect .closeParen
      ("Procedures take no parameters, close with ')'. Example: " ++ name ++ "()")
    pure (.call name t.line)

def statement (block : BlockRule) : Parse Statement := do
  let t := (← get).current
  match t.kind with
  | .command c =>
    let _ ← advance
    pure (.command c t.line)
  | .keyword .repetir => loop block
  | .keyword .si => branch block
  | .identifier => call
  | _ => fail .notAnInstruction

/-- Statements up to a closing brace or the end of the source. A statement takes at least one
token, so there are no more of them than tokens ahead. -/
def statements (block : BlockRule) : Parse Block := do
  let n := (← get).ahead.length
  collect [.closeBrace, .endOfFile] (statement block) n

/-- Statements up to and with the closing brace, while there is room for one more block. -/
def block : Nat → BlockRule
  | 0, _, line => do failOn line (.nestedTooDeeply (← get).cap)
  | room + 1, what, line => nested do
    let body ← statements (block room)
    if (← get).atEnd then failOn line (.unclosedBlock what)
    else
      let _ ← expect .closeBrace ("The " ++ what ++ " block must be closed with '\x7d'.")
      pure body

/-- The rule for blocks at the place where the parser stands. -/
def blockHere : BlockRule := fun what line => do block (← get).room what line

def mainBlock : Parse MainBlock := do
  let start ← expect (.keyword .programa) "The file must start with 'programa'."
  let _ ← expect .openBrace
    "'programa' must be followed by '\x7b'. Example: programa \x7b ... \x7d"
  let body ← blockHere "'programa'" start.line
  pure ⟨body, start.line⟩

def procedure : Parse Procedure := do
  let start ← expect (.keyword .procedimiento) "Expected the word 'procedimiento'."
  let t ← expect .identifier
    ("'procedimiento' must be followed by a name. " ++
      "Example: procedimiento drawLine() \x7b ... \x7d")
  let name ← written t.content
  let sample := "Example: procedimiento " ++ name ++ "() \x7b ... \x7d"
  let _ ← expect .openParen
    ("Procedures take no parameters but the parentheses are required. " ++ sample)
  let _ ← expect .closeParen ("Procedures take no parameters, close with ')'. " ++ sample)
  let _ ← expect .openBrace ("'()' must be followed by '\x7b' to open the body. " ++ sample)
  let body ← blockHere ("procedure '" ++ name ++ "'") start.line
  pure ⟨name, body, start.line⟩

/-- Adds the main block or the procedure that comes next to a program. -/
def declaration (program : Program) : Parse Program := do
  match (← get).current.kind with
  | .keyword .programa =>
    match program.main with
    | some m => fail (.repeatedMain m.line)
    | none =>
      let m ← mainBlock
      pure { program with main := some m }
  | .keyword .procedimiento =>
    let q ← procedure
    pure { program with procedures := program.procedures ++ [q] }
  | _ => fail .strayElement

/-- Adds declarations to a program up to the end of the source, at most `n` of them. -/
def declarations (program : Program) : Nat → Parse Program
  | 0 => pure program
  | n + 1 => do
    if (← get).atEnd then pure program
    else
      let program ← declaration program
      declarations program n

def program : Parse Program := do
  let n := (← get).ahead.length
  let p ← declarations {} n
  match p.main with
  | none => fail .missingMain
  | some _ => pure p

end Parse

/-! ### Whole programs -/

namespace Program

/-- Why a list of tokens cannot be parsed. -/
inductive TokenFault
  | noEnd
  | parse (f : ParseFault)
  deriving DecidableEq

def TokenFault.noEndMessage : String := "token list must end with an EOF token"

def ofTokens (tokens : List Token) (cap : Int) : Except TokenFault Program :=
  match Parser.ofTokens? tokens cap with
  | none => .error .noEnd
  | some p => (Parse.program p).1.mapError .parse

end Program

end Trazo
