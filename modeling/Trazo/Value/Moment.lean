/-!
Dates, times of day, and both together, as settings files write them.
-/

namespace Trazo

structure Date where
  year : Nat
  month : Nat
  day : Nat
  deriving DecidableEq, Inhabited

namespace Date

def isLeap (year : Nat) : Bool := year % 4 = 0 && (year % 100 ≠ 0 || year % 400 = 0)

def monthLength (year month : Nat) : Nat :=
  if month = 2 then (if isLeap year then 29 else 28)
  else if month = 4 || month = 6 || month = 9 || month = 11 then 30
  else 31

/-- Whether the calendar has the day. There is no year zero. -/
def isValid (d : Date) : Bool :=
  1 ≤ d.year && 1 ≤ d.month && d.month ≤ 12 && 1 ≤ d.day && d.day ≤ monthLength d.year d.month

end Date

structure Clock where
  hour : Nat
  minute : Nat
  second : Nat
  micros : Nat := 0
  deriving DecidableEq, Inhabited

inductive Moment
  | date (d : Date)
  | time (t : Clock)
  /-- The offset is that of the clock from the universal one, in minutes. -/
  | stamp (d : Date) (t : Clock) (offset : Option Int)
  deriving DecidableEq, Inhabited

namespace Moment

private def listed (ns : List Nat) : String := ", ".intercalate (ns.map toString)

def dateParts (d : Date) : List Nat := [d.year, d.month, d.day]

/-- The parts of a time; what is zero at the end is left out after the minutes. -/
def clockParts (t : Clock) : List Nat :=
  [t.hour, t.minute] ++
    if t.micros ≠ 0 then [t.second, t.micros] else if t.second ≠ 0 then [t.second] else []

/-- An offset as a literal: whole days down, and the seconds up from there. -/
def offsetLiteral (minutes : Int) : String :=
  if minutes = 0 then "datetime.timezone.utc"
  else
    let span :=
      if minutes < 0 then "days=-1, seconds=" ++ toString (86400 + 60 * minutes)
      else "seconds=" ++ toString (60 * minutes)
    "datetime.timezone(datetime.timedelta(" ++ span ++ "))"

def literal : Moment → String
  | .date d => "datetime.date(" ++ listed (dateParts d) ++ ")"
  | .time t => "datetime.time(" ++ listed (clockParts t) ++ ")"
  | .stamp d t offset =>
    "datetime.datetime(" ++ listed (dateParts d ++ clockParts t) ++
      (match offset with
        | none => ""
        | some m => ", tzinfo=" ++ offsetLiteral m) ++ ")"

def typeName : Moment → String
  | .date _ => "date"
  | .time _ => "time"
  | .stamp .. => "datetime"

end Moment

end Trazo
