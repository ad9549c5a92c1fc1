import Trazo.Text.Digit
import Trazo.Text.Quoted

/-!
The words of a command line, one by one.

A flag may be written by any beginning of its name that fits no other flag. Its value is the next
word, or follows in the same word after an equals sign.
-/

namespace Trazo.CommandLine

inductive Flag
  | help | version | config | logLevel | width | height | start | speed
  deriving DecidableEq, Inhabited

namespace Flag

/-- The ways to write a flag. Only help has a short one. -/
def names : Flag → List String
  | .help => ["-h", "--help"]
  | .version => ["--version"]
  | .config => ["--config"]
  | .logLevel => ["--log-level"]
  | .width => ["--width"]
  | .height => ["--height"]
  | .start => ["--start"]
  | .speed => ["--speed"]

/-- A flag as messages call it. -/
def label (f : Flag) : String := "/".intercalate f.names

def takesValue : Flag → Bool
  | .help | .version => false
  | .config | .logLevel | .width | .height | .start | .speed => true

end Flag

/-- What a word can be: a flag, perhaps with a value in the same word; something that looks like a
flag but is none; the mark after which there are no more flags; or an argument. -/
inductive Word
  | flag (f : Flag) (value : Option String)
  | unknown
  | mark
  | argument
  deriving DecidableEq, Inhabited

/-- A word that is the beginning of several names. -/
structure Ambiguity where
  word : String
  candidates : List String
  deriving DecidableEq

namespace Word

def named? (flags : List Flag) (name : String) : Option Flag :=
  flags.find? fun f => f.names.contains name

/-- All names with the flags that they belong to. -/
def namesOf (flags : List Flag) : List (String × Flag) :=
  flags.flatMap fun f => f.names.map fun n => (n, f)

/-- A text up to its first equals sign, and what follows the sign if there is one. -/
def cut : List Char → List Char × Option (List Char)
  | [] => ([], none)
  | '=' :: r => ([], some r)
  | c :: r =>
    let (name, value) := cut r
    (c :: name, value)

/-- What is given as a value in the rest of a word that asks for help by its short name. The same
letter again asks once more, and other letters are not looked at. -/
def helpTail : List Char → Option (List Char)
  | '=' :: r => some r
  | '-' :: r => some ('-' :: r)
  | 'h' :: r => helpTail r
  | _ => none

/-- Whether a text is digits, perhaps with a point before some of them. -/
def isDecimal (cs : List Char) : Bool :=
  let isDigit (c : Char) : Bool := (Text.digit? c).isSome
  let cs := if cs.getLast? = some '\n' then cs.dropLast else cs
  match cs.dropWhile isDigit with
  | [] => !cs.isEmpty
  | '.' :: r => !r.isEmpty && r.all isDigit
  | _ => false

/-- What a word is when it names no flag: negative numbers and texts with blanks are arguments. -/
def other (cs : List Char) : Word :=
  if isDecimal (cs.drop 1) || cs.contains ' ' then .argument else .unknown

/-- A word that starts with two dashes. -/
def ofLong (flags : List Flag) (w : String) : Except Ambiguity Word :=
  let (name, value) := cut w.toList
  let value := value.map String.ofList
  match named? flags (String.ofList name) with
  | some f => .ok (.flag f value)
  | none =>
    match (namesOf flags).filter fun n => name.isPrefixOf n.1.toList with
    | [] => .ok (other w.toList)
    | [(_, f)] => .ok (.flag f value)
    | candidates => .error ⟨w, candidates.map (·.1)⟩

def classify (flags : List Flag) (w : String) : Except Ambiguity Word :=
  match w.toList with
  | ['-', '-'] => .ok .mark
  | '-' :: '-' :: _ => ofLong flags w
  | '-' :: 'h' :: r => .ok (.flag .help ((helpTail r).map String.ofList))
  | '-' :: _ :: _ => .ok (other w.toList)
  | _ => .ok .argument

/-- The words of a line with what they are. After the mark all are arguments. -/
def classifyAll (flags : List Flag) : List String → Except Ambiguity (List (String × Word))
  | [] => .ok []
  | w :: ws => do
    let c ← classify flags w
    if c = .mark then pure ((w, c) :: ws.map fun v => (v, .argument))
    else
      let rest ← classifyAll flags ws
      pure ((w, c) :: rest)

end Word

end Trazo.CommandLine
