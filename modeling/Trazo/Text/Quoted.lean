import Trazo.Text.Printable

/-!
Text in quotes.

Single quotes are used unless the text holds one and no double quote. The quote in use and the
backslash are escaped; line feed, carriage return and tab have short escapes, and every other
character that does not show is written by its code in two, four or eight hexadecimal digits.
-/

namespace Trazo.Text

/-- Writes `n` in hexadecimal, at least `width` digits. -/
def hex (width n : Nat) : String :=
  let ds := Nat.toDigits 16 n
  String.ofList (List.replicate (width - ds.length) '0' ++ ds)

/-- One character inside quotes `q`. -/
def escaped (q c : Char) : String :=
  if c = q || c = '\\' then String.ofList ['\\', c]
  else if c = '\n' then "\\n"
  else if c = '\r' then "\\r"
  else if c = '\t' then "\\t"
  else if isPrintable c then String.ofList [c]
  else if c.toNat < 0x100 then "\\x" ++ hex 2 c.toNat
  else if c.toNat < 0x10000 then "\\u" ++ hex 4 c.toNat
  else "\\U" ++ hex 8 c.toNat

/-- The quote that `s` is written in. -/
def quoteFor (s : List Char) : Char :=
  if s.contains '\'' && !s.contains '"' then '"' else '\''

def quoted (s : String) : String :=
  let q := quoteFor s.toList
  String.ofList [q] ++ String.join (s.toList.map (escaped q)) ++ String.ofList [q]

end Trazo.Text
