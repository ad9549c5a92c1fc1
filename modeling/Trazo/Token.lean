import Trazo.Vocabulary
import Trazo.Text.Quoted

/-!
Tokens: the words, numbers and signs a source text is made of, each with the place where it
starts.
-/

namespace Trazo

namespace Token

inductive Kind
  | keyword (k : Keyword)
  | command (c : Command)
  | sensor (s : Sensor)
  | openBrace | closeBrace | openParen | closeParen
  | number | identifier | endOfFile
  deriving DecidableEq, Inhabited

namespace Kind

def all : List Kind :=
  Keyword.all.map .keyword ++ Command.all.map .command ++ Sensor.all.map .sensor ++
    [.openBrace, .closeBrace, .openParen, .closeParen, .number, .identifier, .endOfFile]

/-- The name of a kind in capitals, its words joined by `_`. -/
def name : Kind → String
  | .keyword .programa => "PROGRAM"
  | .keyword .procedimiento => "PROCEDURE"
  | .keyword .si => "IF"
  | .keyword .sino => "ELSE"
  | .keyword .repetir => "REPEAT"
  | .keyword .veces => "TIMES"
  | .command c => c.name.toUpper
  | .sensor s => s.name.toUpper
  | .openBrace => "LBRACE"
  | .closeBrace => "RBRACE"
  | .openParen => "LPAREN"
  | .closeParen => "RPAREN"
  | .number => "NUMBER"
  | .identifier => "IDENTIFIER"
  | .endOfFile => "EOF"

def ofName? (s : String) : Option Kind := all.find? fun k => k.name == s

private def spaced (s : String) : String := s.map fun c => if c = '_' then ' ' else c

/-- A kind in words, for a reader of diagnostics. -/
def describe : Kind → String
  | .keyword k => "'" ++ k.word ++ "'"
  | .command c => spaced c.name
  | .sensor s => spaced s.name
  | .openBrace => "'\x7b' (opening brace)"
  | .closeBrace => "'\x7d' (closing brace)"
  | .openParen => "'(' (opening parenthesis)"
  | .closeParen => "')' (closing parenthesis)"
  | .number => "number"
  | .identifier => "procedure name"
  | .endOfFile => "end of file"

/-- The word a kind is always written with. -/
def word? : Kind → Option String
  | .keyword k => some k.word
  | .command c => some c.word
  | .sensor s => some s.word
  | _ => none

/-- The kind of a scanned word: a word of the vocabulary, else an identifier. -/
def ofWord (s : String) : Kind :=
  (all.find? fun k => k.word? == some s).getD .identifier

/-- The kind of a character that is a token of its own. -/
def ofPunctuation? : Char → Option Kind
  | '\x7b' => some .openBrace
  | '\x7d' => some .closeBrace
  | '(' => some .openParen
  | ')' => some .closeParen
  | _ => none

end Kind

/-- What a token says: its text, its number, or nothing at the end of the source. -/
inductive Content
  | text (s : String)
  | number (n : Int)
  | nothing
  deriving DecidableEq, Inhabited

namespace Content

def text? : Content → Option String
  | .text s => some s
  | .number n => some (toString n)
  | .nothing => none

/-- The integers that the text of the content is written with. -/
def numbers : Content → List Int
  | .number n => [n]
  | .text _ | .nothing => []

/-- The content as plain text; an absent one is written `None`. -/
def toText (c : Content) : String := c.text?.getD "None"

/-- The content as a literal: text in quotes, numbers bare. -/
def literal : Content → String
  | .text s => Text.quoted s
  | .number n => toString n
  | .nothing => "None"

end Content

end Token

structure Token where
  kind : Token.Kind
  content : Token.Content
  line : Int
  column : Int
  deriving DecidableEq, Inhabited

namespace Token

/-- The text of a token, or its kind in words when it has none. -/
def describe (t : Token) : String := t.content.text?.getD t.kind.describe

/-- A token with all its parts, on one line. -/
def display (t : Token) : String :=
  "Token(" ++ t.kind.name ++ ", " ++ t.content.literal ++ ", " ++ toString t.line ++ ":" ++
    toString t.column ++ ")"

end Token

end Trazo
