import Trazo.CommandLine.Usage
import Trazo.Speed

/-!
From the words of a command line to what is to be done.

Words are taken from the left. The first argument is the verb; after it stand its flags and one
file, in any order.
-/

namespace Trazo.CommandLine

/-! ### What can be wrong -/

inductive Misuse
  | ambiguous (a : Ambiguity)
  | missingValue (f : Flag)
  | uselessValue (f : Flag) (value : String)
  | notInteger (f : Flag) (value : String)
  | notOneOf (what value : String) (choices : List String)
  | missingFile
  | unrecognized (words : List String)
  deriving DecidableEq

namespace Misuse

private def about (what s : String) : String := "argument " ++ what ++ ": " ++ s

def message : Misuse → String
  | .ambiguous a =>
    "ambiguous option: " ++ a.word ++ " could match " ++ ", ".intercalate a.candidates
  | .missingValue f => about f.label "expected one argument"
  | .uselessValue f v => about f.label ("ignored explicit argument " ++ Text.quoted v)
  | .notInteger f v => about f.label ("invalid int value: " ++ Text.quoted v)
  | .notOneOf what v choices =>
    about what ("invalid choice: " ++ Text.quoted v ++ " (choose from " ++
      ", ".intercalate (choices.map Text.quoted) ++ ")")
  | .missingFile => "the following arguments are required: file"
  | .unrecognized words => "unrecognized arguments: " ++ " ".intercalate words

end Misuse

/-- Why a command line is not carried out: it asks for information, or it is wrong. -/
inductive Stop
  | help (s : Scope)
  | version
  | misuse (s : Scope) (m : Misuse)
  deriving DecidableEq

/-! ### Flags -/

/-- What the flags after a verb set. -/
structure Choices where
  config : Option String := none
  logLevel : Option Log.Level := none
  width : Int := 8
  height : Int := 8
  start : Option String := none
  speed : Speed := .instant
  deriving DecidableEq, Inhabited

def logLevels : List (String × Log.Level) :=
  [("debug", .debug), ("info", .info), ("warning", .warning), ("error", .error)]

def speeds : List (String × Speed) := Speed.all.map fun s => (s.name, s)

/-- The thing that a value names. -/
def pick {α : Type} (f : Flag) (choices : List (String × α)) (value : String) :
    Except Misuse α :=
  match choices.find? fun c => c.1 == value with
  | some c => .ok c.2
  | none => .error (.notOneOf f.label value (choices.map (·.1)))

def integer (f : Flag) (value : String) : Except Misuse Int :=
  (Text.Integer.read value).mapError fun _ => .notInteger f value

/-- Sets what a flag sets. A later value replaces an earlier one. -/
def Choices.set (c : Choices) (f : Flag) (value : String) : Except Misuse Choices :=
  match f with
  | .config => .ok { c with config := some value }
  | .logLevel => (pick f logLevels value).map fun l => { c with logLevel := some l }
  | .width => (integer f value).map fun n => { c with width := n }
  | .height => (integer f value).map fun n => { c with height := n }
  | .start => .ok { c with start := some value }
  | .speed => (pick f speeds value).map fun s => { c with speed := s }
  | .help | .version => .ok c

/-! ### After the verb -/

/-- What has been read after a verb. -/
structure Progress where
  choices : Choices := {}
  file : Option String := none
  /-- Whether the last word was the file. -/
  fresh : Bool := false
  extras : List String := []
  deriving DecidableEq, Inhabited

namespace Progress

def extra (p : Progress) (w : String) : Progress :=
  { p with fresh := false, extras := p.extras ++ [w] }

/-- An argument is the file; further ones are too many. -/
def argument (p : Progress) (w : String) : Progress :=
  match p.file with
  | none => { p with file := some w, fresh := true }
  | some _ => p.extra w

/-- A flag with its value. -/
def set (p : Progress) (v : Verb) (f : Flag) (value : String) : Except Stop Progress :=
  match p.choices.set f value with
  | .ok c => .ok { p with choices := c, fresh := false }
  | .error m => .error (.misuse (.after v) m)

/-- Words without the mark. -/
def read (v : Verb) (p : Progress) : List (String × Word) → Except Stop Progress
  | [] => .ok p
  | (_, .flag f (some value)) :: rest =>
    if f.takesValue then do read v (← p.set v f value) rest
    else .error (.misuse (.after v) (.uselessValue f value))
  | (_, .flag f none) :: rest =>
    if f.takesValue then
      match rest with
      | (value, .argument) :: rest => do read v (← p.set v f value) rest
      | _ => .error (.misuse (.after v) (.missingValue f))
    else .error (.help (.after v))
  | (w, .argument) :: rest => read v (p.argument w) rest
  | (w, .unknown) :: rest => read v (p.extra w) rest
  | (w, .mark) :: rest => read v (p.extra w) rest

/-- The mark and the words after it, if there is a mark. Next to the file the mark does no more than
end the flags; anywhere else it is one word too many. -/
def finish (p : Progress) : List String → Progress
  | [] => p
  | mark :: after =>
    match p.file, after with
    | none, [] => p.extra mark
    | none, w :: ws => { p with file := some w, extras := p.extras ++ ws }
    | some _, ws => { p with extras := p.extras ++ if p.fresh then ws else mark :: ws }

end Progress

/-- Something to do. -/
structure Invocation where
  verb : Verb
  file : String
  choices : Choices
  deriving DecidableEq, Inhabited

/-- Reads what follows a verb: what is to be done, and the words that are too many. -/
def readVerb (v : Verb) (args : List String) : Except Stop (Invocation × List String) := do
  let words ← (Word.classifyAll v.flags args).mapError fun a =>
    Stop.misuse (.after v) (.ambiguous a)
  let p ← Progress.read v {} (words.takeWhile fun w => w.2 ≠ .mark)
  let p := p.finish ((words.dropWhile fun w => w.2 ≠ .mark).map (·.1))
  match p.file with
  | none => throw (.misuse (.after v) .missingFile)
  | some file => pure (⟨v, file, p.choices⟩, p.extras)

/-! ### The whole line -/

/-- Fails when words are left over. -/
def refuse (extras : List String) : Except Stop Unit :=
  if extras.isEmpty then .ok () else .error (.misuse .top (.unrecognized extras))

def unknownVerb (w : String) : Stop :=
  .misuse .top (.notOneOf "command" w (Verb.all.map Verb.name))

/-- Words up to the verb, and then the rest of the line. -/
def readTop (extras : List String) :
    List (String × Word) → Except Stop (Option Invocation)
  | [] => (refuse extras).map fun _ => none
  | (_, .flag f (some value)) :: _ => .error (.misuse .top (.uselessValue f value))
  | (_, .flag f none) :: _ => .error (if f = .version then .version else .help .top)
  | (w, .unknown) :: rest => readTop (extras ++ [w]) rest
  | (w, .mark) :: rest =>
    if rest.isEmpty then (refuse (extras ++ [w])).map fun _ => none
    else .error (unknownVerb w)
  | (w, .argument) :: rest =>
    match Verb.ofName? w with
    | none => .error (unknownVerb w)
    | some v => do
      let (invocation, more) ← readVerb v (rest.map (·.1))
      refuse (extras ++ more)
      pure (some invocation)

/-- What a command line says is to be done, if it says anything. -/
def Invocation.ofArguments (args : List String) : Except Stop (Option Invocation) := do
  let words ← (Word.classifyAll Scope.top.flags args).mapError fun a =>
    .misuse .top (.ambiguous a)
  readTop [] words

end Trazo.CommandLine
