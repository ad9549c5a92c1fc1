import Trazo.Text.Integer
import Trazo.Value
import Trazo.Value.Reader

/-!
Reading tables written in TOML: comments, keys with dots, table headers, strings, numbers,
booleans, dates and times, lists and tables in line.

A key is given a value once. A table is opened by its header once, and a list or a table written in
line is complete: nothing is added to it later.
-/

namespace Trazo.Toml

abbrev Key := List String

/-- A key in words: its parts in quotes. -/
def keyLiteral : Key → String
  | [k] => "(" ++ Text.quoted k ++ ",)"
  | ks => "(" ++ ", ".intercalate (ks.map Text.quoted) ++ ")"

inductive Problem
  | statement
  | endOfStatement
  | declaredTwice (k : Key)
  | overwrite
  | tableEnd
  | arrayEnd
  | immutable (k : Key)
  | redefined (k : Key)
  | equals
  | keyPart
  | unclosedArray
  | unclosedTable
  | duplicateInline (k : String)
  | backslash
  | hexValue
  | notScalar
  | missing (s : String)
  | invalidCharacter (c : Char)
  | illegalCharacter (c : Char)
  | unterminatedString
  | moment
  | value
  deriving DecidableEq

def Problem.message : Problem → String
  | .statement => "Invalid statement"
  | .endOfStatement => "Expected newline or end of document after a statement"
  | .declaredTwice k => "Cannot declare " ++ keyLiteral k ++ " twice"
  | .overwrite => "Cannot overwrite a value"
  | .tableEnd => "Expected ']' at the end of a table declaration"
  | .arrayEnd => "Expected ']]' at the end of an array declaration"
  | .immutable k => "Cannot mutate immutable namespace " ++ keyLiteral k
  | .redefined k => "Cannot redefine namespace " ++ keyLiteral k
  | .equals => "Expected '=' after a key in a key/value pair"
  | .keyPart => "Invalid initial character for a key part"
  | .unclosedArray => "Unclosed array"
  | .unclosedTable => "Unclosed inline table"
  | .duplicateInline k => "Duplicate inline table key " ++ Text.quoted k
  | .backslash => "Unescaped '\\' in a string"
  | .hexValue => "Invalid hex value"
  | .notScalar => "Escaped character is not a Unicode scalar value"
  | .missing s => "Expected " ++ Text.quoted s
  | .invalidCharacter c => "Found invalid character " ++ Text.quoted (String.ofList [c])
  | .illegalCharacter c => "Illegal character " ++ Text.quoted (String.ofList [c])
  | .unterminatedString => "Unterminated string"
  | .moment => "Invalid date or datetime"
  | .value => "Invalid value"

inductive Fault
  | malformed (p : Problem) (pos : Nat)
  | integer (f : Text.Integer.Fault)
  deriving DecidableEq

/-- A fault in words, with the line and the column, or the end of the text. -/
def Fault.message (source : List Char) : Fault → String
  | .integer f => f.message
  | .malformed p pos =>
    let before := source.take pos
    let place :=
      if pos ≥ source.length then "end of document"
      else
        "line " ++ toString (before.count '\n' + 1) ++ ", column " ++
          toString ((before.reverse.takeWhile (· ≠ '\n')).length + 1)
    p.message ++ " (at " ++ place ++ ")"

def failAt {α : Type} (r : Reader) (p : Problem) : Except Fault α := .error (.malformed p r.pos)

/-! ### Blanks and comments -/

def isSpace (c : Char) : Bool := c = ' ' || c = '\t'

def isSpaceOrNewline (c : Char) : Bool := isSpace c || c = '\n'

/-- Control characters other than the tab. -/
def isControl (c : Char) : Bool := (c.toNat < 32 && c ≠ '\t') || c.toNat = 127

def skipSpace (r : Reader) : Reader := r.skipWhile isSpace

/-- The place of the first control character before `stop`, if there is one. -/
def controlBefore (bad : Char → Bool) (r stop : Reader) : Option Reader :=
  let clean := (r.upTo stop).takeWhile fun c => !bad c
  if clean.length < (r.upTo stop).length then some (r.drop clean.length) else none

def refuseControl (bad : Char → Bool) (r stop : Reader) : Except Fault Unit :=
  match controlBefore bad r stop with
  | none => .ok ()
  | some place => failAt place (.invalidCharacter (place.head?.getD ' '))

def skipComment (r : Reader) : Except Fault Reader :=
  if r.head? = some '#' then do
    let body := r.drop 1
    let stop := body.skipWhile (· ≠ '\n')
    refuseControl isControl body stop
    pure stop
  else .ok r

/-- Blanks, line ends and comments between the parts of a list, at most `n` of each. -/
def skipFiller : Nat → Reader → Except Fault Reader
  | 0, r => .ok r
  | n + 1, r => do
    let s ← skipComment (r.skipWhile isSpaceOrNewline)
    if s.pos = r.pos then pure r else skipFiller n s

/-! ### Strings -/

def hexDigit? (c : Char) : Option Nat :=
  if '0' ≤ c && c ≤ '9' then some (c.toNat - '0'.toNat)
  else if 'a' ≤ c && c ≤ 'f' then some (c.toNat - 'a'.toNat + 10)
  else if 'A' ≤ c && c ≤ 'F' then some (c.toNat - 'A'.toNat + 10)
  else none

def escape? : Char → Option Char
  | 'b' => some '\x08'
  | 't' => some '\t'
  | 'n' => some '\n'
  | 'f' => some '\x0c'
  | 'r' => some '\r'
  | '"' => some '"'
  | '\\' => some '\\'
  | _ => none

/-- A character given by `n` hexadecimal digits. -/
def hexCharacter (n : Nat) (r : Reader) : Except Fault (List Char × Reader) :=
  match (r.rest.take n).mapM hexDigit? with
  | some ds =>
    if ds.length ≠ n then failAt r .hexValue
    else
      let code := ds.foldl (16 * · + ·) 0
      if code < 0xd800 || (0xe000 ≤ code && code < 0x110000) then
        .ok ([Char.ofNat code], r.drop n)
      else failAt (r.drop n) .notScalar
  | none => failAt r .hexValue

/-- What a backslash and the characters after it stand for. A backslash at the end of a line takes
the line end and the blanks after it away. -/
def escape (lines : Bool) (r : Reader) : Except Fault (List Char × Reader) :=
  let after := r.drop 2
  match r.rest.drop 1 with
  | [] => .error (.malformed .backslash (r.pos + 2))
  | c :: _ =>
    if lines && isSpaceOrNewline c then
      if c = '\n' then .ok ([], after.skipWhile isSpaceOrNewline)
      else
        let s := skipSpace after
        match s.head? with
        | none => .ok ([], s)
        | some '\n' => .ok ([], (s.drop 1).skipWhile isSpaceOrNewline)
        | some _ => failAt s .backslash
    else if c = 'u' then hexCharacter 4 after
    else if c = 'U' then hexCharacter 8 after
    else
      match escape? c with
      | some x => .ok ([x], after)
      | none => failAt after .backslash

/-- A basic string after its opening quotes, at most `n` characters of it. -/
def basic (lines : Bool) (done : List Char) : Nat → Reader → Except Fault (List Char × Reader)
  | 0, r => failAt r .unterminatedString
  | n + 1, r =>
    match r.head? with
    | none => failAt r .unterminatedString
    | some '"' =>
      if !lines then .ok (done.reverse, r.drop 1)
      else if r.startsWith "\"\"\"" then .ok (done.reverse, r.drop 3)
      else basic lines ('"' :: done) n (r.drop 1)
    | some '\\' => do
      let (cs, r) ← escape lines r
      basic lines (cs.reverse ++ done) n r
    | some c =>
      if isControl c && !(lines && c = '\n') then failAt r (.illegalCharacter c)
      else basic lines (c :: done) n (r.drop 1)

def basicString (r : Reader) : Except Fault (String × Reader) := do
  let (cs, r) ← basic false [] (r.rest.length + 1) (r.drop 1)
  pure (String.ofList cs, r)

/-- The first place at or after the reader where `mark` stands. -/
def find (mark : String) : Nat → Reader → Option Reader
  | 0, _ => none
  | n + 1, r =>
    if r.startsWith mark then some r
    else if r.rest.isEmpty then none
    else find mark n (r.drop 1)

/-- The text up to `mark`, which is passed. -/
def literalUpTo (mark : String) (bad : Char → Bool) (r : Reader) :
    Except Fault (List Char × Reader) :=
  match find mark (r.rest.length + 1) r with
  | none => .error (.malformed (.missing mark) (r.pos + r.rest.length))
  | some stop => do
    refuseControl bad r stop
    pure (r.upTo stop, stop.drop mark.length)

def literalString (r : Reader) : Except Fault (String × Reader) := do
  let (cs, r) ← literalUpTo "'" isControl (r.drop 1)
  pure (String.ofList cs, r)

/-- Up to two more quotes belong to a string that three quotes close. -/
def trailingQuotes (q : Char) (cs : List Char) (r : Reader) : String × Reader :=
  let n := ((r.rest.take 2).takeWhile (· = q)).length
  (String.ofList (cs ++ List.replicate n q), r.drop n)

def multilineString (q : Char) (r : Reader) : Except Fault (String × Reader) := do
  let r := r.drop 3
  let r := if r.head? = some '\n' then r.drop 1 else r
  let (cs, r) ←
    if q = '"' then basic true [] (r.rest.length + 1) r
    else literalUpTo (String.ofList [q, q, q]) (fun c => isControl c && c ≠ '\n') r
  pure (trailingQuotes q cs r)

/-! ### Keys -/

def isBareKey (c : Char) : Bool :=
  ('a' ≤ c && c ≤ 'z') || ('A' ≤ c && c ≤ 'Z') || ('0' ≤ c && c ≤ '9') || c = '-' || c = '_'

def keyPart (r : Reader) : Except Fault (String × Reader) :=
  match r.head? with
  | some '\'' => literalString r
  | some '"' => basicString r
  | some c =>
    if isBareKey c then
      let s := r.skipWhile isBareKey
      .ok (String.ofList (r.upTo s), s)
    else failAt r .keyPart
  | none => failAt r .keyPart

/-- The parts of a key after the first, at most `n` of them. -/
def keyRest (done : Key) : Nat → Reader → Except Fault (Key × Reader)
  | 0, r => .ok (done.reverse, r)
  | n + 1, r =>
    if r.head? = some '.' then do
      let (k, r) ← keyPart (skipSpace (r.drop 1))
      keyRest (k :: done) n (skipSpace r)
    else .ok (done.reverse, r)

def key (r : Reader) : Except Fault (Key × Reader) := do
  let (k, r) ← keyPart r
  keyRest [k] (r.rest.length + 1) (skipSpace r)

/-! ### Numbers -/

/-- Digits with single underscores between them: the length of the run and its digits. -/
def digitRun (value? : Char → Option Nat) : List Char → Nat × List Nat
  | c :: r =>
    match value? c with
    | none => (0, [])
    | some d =>
      match r with
      | '_' :: x :: s =>
        match value? x with
        | none => (1, [d])
        | some _ =>
          let (n, ds) := digitRun value? (x :: s)
          (n + 2, d :: ds)
      | r =>
        let (n, ds) := digitRun value? r
        (n + 1, d :: ds)
  | [] => (0, [])

def decimal? (c : Char) : Option Nat :=
  if '0' ≤ c && c ≤ '9' then some (c.toNat - '0'.toNat) else none

def below (base : Nat) (c : Char) : Option Nat := (hexDigit? c).filter (· < base)

/-- A whole number in base sixteen, two or eight. -/
def prefixed (r : Reader) : Option (Value × Reader) :=
  match r.rest with
  | '0' :: x :: ds =>
    let base := match x with
      | 'x' => 16
      | 'b' => 2
      | 'o' => 8
      | _ => 0
    match digitRun (below base) ds with
    | (0, _) => none
    | (n, vs) => some (.int (vs.foldl (base * · + ·) 0 : Nat), r.drop (n + 2))
  | _ => none

/-- The digits after a point or an exponent sign, if there is a digit. -/
def fraction (cs : List Char) : Nat × List Nat :=
  match cs with
  | '.' :: r =>
    match digitRun decimal? r with
    | (0, _) => (0, [])
    | (n, ds) => (n + 1, ds)
  | _ => (0, [])

/-- The length and the value of an exponent. -/
def exponent (cs : List Char) : Nat × Int :=
  match cs with
  | c :: r =>
    if c = 'e' || c = 'E' then
      let (negative, body) := Text.Integer.sign r
      match digitRun decimal? body with
      | (0, _) => (0, 0)
      | (n, ds) =>
        (1 + (r.length - body.length) + n, Text.Integer.signed negative (Text.ofDigits ds))
    else (0, 0)
  | [] => (0, 0)

/-- The digits before the point: a zero alone, or digits that start with no zero. -/
def whole (cs : List Char) : Nat × List Nat :=
  match cs with
  | '0' :: _ => (1, [0])
  | cs => digitRun decimal? cs

def number (r : Reader) : Except Fault (Option (Value × Reader)) :=
  match prefixed r with
  | some v => .ok (some v)
  | none =>
    let (negative, body) := Text.Integer.sign r.rest
    match whole body with
    | (0, _) => .ok none
    | (n, ds) =>
      let after := body.drop n
      let (fn, fds) := fraction after
      let (en, e) := exponent (after.drop fn)
      let stop := r.drop (r.rest.length - body.length + n + fn + en)
      if fn + en = 0 then
        if ds.length > Text.Integer.maxDigits then .error (.integer (.tooLong ds.length))
        else .ok (some (.int (Text.Integer.signed negative (Text.ofDigits ds)), stop))
      else
        .ok (some (.float (.ofDecimal negative (Text.ofDigits (ds ++ fds)) (e - fds.length)), stop))

/-! ### Dates and times -/

/-- The number that the first `n` characters write in digits, and the rest. -/
def fixed? (n : Nat) (cs : List Char) : Option (Nat × List Char) :=
  match (cs.take n).mapM decimal? with
  | some ds => if ds.length = n then some (Text.ofDigits ds, cs.drop n) else none
  | none => none

def sign? (c : Char) : List Char → Option (List Char)
  | x :: r => if x = c then some r else none
  | [] => none

/-- A year, a month and a day with dashes between them. -/
def date? (cs : List Char) : Option (Date × List Char) := do
  let (year, cs) ← fixed? 4 cs
  let (month, cs) ← fixed? 2 (← sign? '-' cs)
  let (day, cs) ← fixed? 2 (← sign? '-' cs)
  if 1 ≤ month && month ≤ 12 && 1 ≤ day && day ≤ 31 then pure (⟨year, month, day⟩, cs) else none

/-- Hours and minutes with a colon between them. -/
def hourMinute? (cs : List Char) : Option (Nat × Nat × List Char) := do
  let (hour, cs) ← fixed? 2 cs
  let (minute, cs) ← fixed? 2 (← sign? ':' cs)
  if hour ≤ 23 && minute ≤ 59 then pure (hour, minute, cs) else none

/-- The millionths that follow a point; further digits are passed over. -/
def micros (cs : List Char) : Nat × List Char :=
  match cs with
  | '.' :: r =>
    let ds := r.takeWhile fun c => (decimal? c).isSome
    if ds.isEmpty then (0, cs)
    else
      let padded := (ds.filterMap decimal? ++ List.replicate 6 0).take 6
      (Text.ofDigits padded, r.drop ds.length)
  | _ => (0, cs)

def clock? (cs : List Char) : Option (Clock × List Char) := do
  let (hour, minute, cs) ← hourMinute? cs
  let (second, cs) ← fixed? 2 (← sign? ':' cs)
  if second ≤ 59 then
    let (micros, cs) := micros cs
    pure (⟨hour, minute, second, micros⟩, cs)
  else none

/-- The offset from universal time, if one is given. -/
def offset (cs : List Char) : Option Int × List Char :=
  match cs with
  | 'Z' :: r | 'z' :: r => (some 0, r)
  | '+' :: r =>
    match hourMinute? r with
    | some (h, m, s) => (some (60 * h + m : Nat), s)
    | none => (none, cs)
  | '-' :: r =>
    match hourMinute? r with
    | some (h, m, s) => (some (-(60 * h + m : Nat)), s)
    | none => (none, cs)
  | _ => (none, cs)

/-- The time after a date and the letter or blank between them. -/
def clockAfter? : List Char → Option (Clock × List Char)
  | c :: r => if c = 'T' || c = 't' || c = ' ' then clock? r else none
  | [] => none

/-- A date, a date with a time, or a time alone. -/
def moment? (cs : List Char) : Option (Moment × List Char) :=
  match date? cs with
  | some (d, rest) =>
    match clockAfter? rest with
    | some (t, rest) =>
      let (o, rest) := offset rest
      some (.stamp d t o, rest)
    | none => some (.date d, rest)
  | none => (clock? cs).map fun (t, rest) => (.time t, rest)

/-- Whether the calendar has the day of a moment. -/
def isReal : Moment → Bool
  | .date d | .stamp d _ _ => d.isValid
  | .time _ => true

def moment (r : Reader) : Except Fault (Option (Value × Reader)) :=
  match moment? r.rest with
  | none => .ok none
  | some (m, rest) =>
    if isReal m then .ok (some (.moment m, r.drop (r.rest.length - rest.length)))
    else failAt r .moment

/-- Values with a name. -/
def constants : List (String × Value) :=
  [("true", .bool true), ("false", .bool false),
   ("inf", .float (.infinite false)), ("+inf", .float (.infinite false)),
   ("-inf", .float (.infinite true)),
   ("nan", .float .nan), ("+nan", .float .nan), ("-nan", .float .nan)]

/-! ### Tables within tables -/

/-- Changes the table that a key leads to. Missing tables are made on the way, a list stands for its
last table when `lists` says so, and any other value in the way is a fault. -/
def within (lists : Bool) (f : Table → Option Table) : Key → Table → Option Table
  | [], t => f t
  | k :: ks, t =>
    match Table.get? t k with
    | none => (within lists f ks []).map fun u => Table.insert t k (.table u)
    | some (.table u) => (within lists f ks u).map fun u => Table.insert t k (.table u)
    | some (.list vs) =>
      match lists, vs.getLast? with
      | true, some (.table u) =>
        (within lists f ks u).map fun u => Table.insert t k (.list (vs.dropLast ++ [.table u]))
      | _, _ => none
    | some _ => none

/-- Adds an empty table to the list of tables that a key names. -/
def appendTable (k : Key) (t : Table) : Option Table :=
  match k.getLast? with
  | none => none
  | some last =>
    within true (fun u =>
      match Table.get? u last with
      | none => some (Table.insert u last (.list [.table []]))
      | some (.list vs) => some (Table.insert u last (.list (vs ++ [.table []])))
      | some _ => none) k.dropLast t

/-- What is known of a key: it has been opened, or it is complete. -/
inductive Mark
  | opened | complete
  deriving DecidableEq

/-- Marks of keys. A complete key makes all keys below it complete. -/
abbrev Marks := List (Key × Mark)

def Marks.has (ms : Marks) (k : Key) (m : Mark) : Bool :=
  ms.any fun e => e.2 = m && (e.1 = k || (m = .complete && e.1.isPrefixOf k && !k.isEmpty))

/-- Forgets a key and all keys below it. -/
def Marks.forget (ms : Marks) (k : Key) : Marks := ms.filter fun e => !k.isPrefixOf e.1

def isCompound : Value → Bool
  | .list _ | .table _ => true
  | _ => false

/-! ### Values -/

/-- A key, an equals sign and a value. -/
def pair (value : Reader → Except Fault (Value × Reader)) (r : Reader) :
    Except Fault (Key × Value × Reader) := do
  let (k, r) ← key r
  if r.head? = some '=' then
    let (v, r) ← value (skipSpace (r.drop 1))
    pure (k, v, r)
  else failAt r .equals

/-- The items of a list, at most `n` of them. -/
def items (value : Reader → Except Fault (Value × Reader)) (done : List Value) :
    Nat → Reader → Except Fault (List Value × Reader)
  | 0, r => failAt r .unclosedArray
  | n + 1, r => do
    if r.head? = some ']' then pure (done.reverse, r.drop 1)
    else
      let (v, r) ← value r
      let r ← skipFiller (r.rest.length + 1) r
      match r.head? with
      | some ']' => pure ((v :: done).reverse, r.drop 1)
      | some ',' =>
        let r ← skipFiller (r.rest.length + 1) (r.drop 1)
        items value (v :: done) n r
      | _ => failAt r .unclosedArray

/-- The entries of a table in line, at most `n` of them. -/
def entries (value : Reader → Except Fault (Value × Reader)) (done : Table) (marks : Marks) :
    Nat → Reader → Except Fault (Table × Reader)
  | 0, r => failAt r .unclosedTable
  | n + 1, r => do
    let (k, v, r) ← pair value r
    if marks.has k .complete then failAt r (.immutable k)
    else
      let stem := k.getLast?.getD ""
      match within false (fun t => some t) k.dropLast done with
      | none => failAt r .overwrite
      | some done =>
        match within false (fun t =>
            if (Table.get? t stem).isSome then none else some (Table.insert t stem v))
            k.dropLast done with
        | none => failAt r (.duplicateInline stem)
        | some done =>
          let r := skipSpace r
          match r.head? with
          | some '\x7d' => pure (done, r.drop 1)
          | some ',' =>
            let marks := if isCompound v then (k, .complete) :: marks else marks
            entries value done marks n (skipSpace (r.drop 1))
          | _ => failAt r .unclosedTable

/-- A value with no more than `room` lists and tables inside one another. -/
def value : Nat → Reader → Except Fault (Value × Reader)
  | 0, r => failAt r .value
  | room + 1, r =>
    match r.head? with
    | some '"' => do
      let (s, r) ← if r.startsWith "\"\"\"" then multilineString '"' r else basicString r
      pure (.text s, r)
    | some '\'' => do
      let (s, r) ← if r.startsWith "'''" then multilineString '\'' r else literalString r
      pure (.text s, r)
    | some '[' => do
      let r ← skipFiller (r.rest.length + 1) (r.drop 1)
      let (vs, r) ← items (value room) [] (r.rest.length + 1) r
      pure (.list vs, r)
    | some '\x7b' => do
      let r := skipSpace (r.drop 1)
      if r.head? = some '\x7d' then pure (.table [], r.drop 1)
      else
        let (t, r) ← entries (value room) [] [] (r.rest.length + 1) r
        pure (.table t, r)
    | _ => do
      match constants.find? fun e => r.startsWith e.1 with
      | some (name, v) => pure (v, r.drop name.length)
      | none =>
        match ← moment r with
        | some v => pure v
        | none =>
          match ← number r with
          | some v => pure v
          | none => failAt r .value

/-! ### Documents -/

/-- A document so far: what it holds, the marks of its keys, those that take effect at the next
header, and the key of the table that is open. -/
structure Document where
  data : Table := []
  marks : Marks := []
  pending : Marks := []
  header : Key := []

/-- A header: `[key]` opens a table. -/
def tableHeader (d : Document) (r : Reader) : Except Fault (Document × Reader) := do
  let (k, r) ← key (skipSpace (r.drop 1))
  if d.marks.has k .opened || d.marks.has k .complete then failAt r (.declaredTwice k)
  else
    match within true some k d.data with
    | none => failAt r .overwrite
    | some data =>
      if r.head? = some ']' then
        pure ({ d with data := data, marks := (k, .opened) :: d.marks, header := k }, r.drop 1)
      else failAt r .tableEnd

/-- A header: `[[key]]` opens a new table at the end of a list. -/
def listHeader (d : Document) (r : Reader) : Except Fault (Document × Reader) := do
  let (k, r) ← key (skipSpace (r.drop 2))
  if d.marks.has k .complete then failAt r (.immutable k)
  else
    match appendTable k d.data with
    | none => failAt r .overwrite
    | some data =>
      if r.startsWith "]]" then
        let marks := (k, .opened) :: d.marks.forget k
        pure ({ d with data := data, marks := marks, header := k }, r.drop 2)
      else failAt r .arrayEnd

/-- The tables that a key with dots passes through, from the outermost. -/
def passed (header k : Key) : List Key :=
  (List.range (k.length - 1)).map fun i => header ++ k.take (i + 1)

def entry (d : Document) (r : Reader) : Except Fault (Document × Reader) := do
  let (k, v, r) ← pair (value (r.rest.length + 1)) r
  let parent := d.header ++ k.dropLast
  let stem := k.getLast?.getD ""
  match (passed d.header k).find? fun p => d.marks.has p .opened with
  | some p => failAt r (.redefined p)
  | none =>
    if d.marks.has parent .complete then failAt r (.immutable parent)
    else
      match within true (fun t =>
          if (Table.get? t stem).isSome then none else some (Table.insert t stem v))
          parent d.data with
      | none => failAt r .overwrite
      | some data =>
        let marks := if isCompound v then (d.header ++ k, .complete) :: d.marks else d.marks
        let pending := (passed d.header k).map (·, Mark.opened) ++ d.pending
        pure ({ d with data := data, marks := marks, pending := pending }, r)

/-- One statement: an entry, a header, or nothing. -/
def statement (d : Document) (r : Reader) : Except Fault (Document × Reader) :=
  match r.head? with
  | none => .ok (d, r)
  | some '[' =>
    let d := { d with marks := d.pending ++ d.marks, pending := [] }
    if r.startsWith "[[" then listHeader d r else tableHeader d r
  | some c =>
    if isBareKey c || c = '"' || c = '\'' then entry d r
    else if c = '#' || c = '\n' then .ok (d, r)
    else failAt r .statement

/-- The statements of a document, at most `n` of them. -/
def statements (d : Document) : Nat → Reader → Except Fault Table
  | 0, _ => .ok d.data
  | n + 1, r => do
    let (d, r) ← statement d (skipSpace r)
    let r ← skipComment (skipSpace r)
    match r.head? with
    | none => pure d.data
    | some '\n' => statements d n (r.drop 1)
    | some _ => failAt r .endOfStatement

/-- The table that a whole text writes, its line ends being line feeds. -/
def read (source : List Char) : Except Fault Table :=
  statements {} (source.length + 1) (.start source)

end Trazo.Toml
