import Trazo.Log
import Trazo.Value

/-!
Which records are written out.

A sink has a threshold, and a stream once it has been set up. Setting it up again changes the
threshold only.
-/

namespace Trazo.Log

/-- The name of the logger that all others of the interpreter belong to. -/
def rootLogger : String := "qdraw"

/-- The number that a threshold's name stands for. -/
def thresholdOf? : String → Option Int
  | "CRITICAL" | "FATAL" => some 50
  | "ERROR" => some 40
  | "WARNING" | "WARN" => some 30
  | "INFO" => some 20
  | "DEBUG" => some 10
  | "NOTSET" => some 0
  | _ => none

/-- Why a value is no threshold. -/
inductive ThresholdFault
  | unknown (name : String)
  | type (v : Value)

def ThresholdFault.message : ThresholdFault → String
  | .unknown name => "Unknown level: " ++ Text.quoted name
  | .type v => "Level not an integer or a valid string: " ++ v.literal

/-- A threshold given by its name or as a number. -/
def threshold : Value → Except ThresholdFault Int
  | .text name =>
    match thresholdOf? name with
    | some n => .ok n
    | none => .error (.unknown name)
  | .int n => .ok n
  | .bool b => .ok (if b then 1 else 0)
  | v => .error (.type v)

structure Sink where
  threshold : Int := 0
  /-- Whether there is a stream to write to. -/
  attached : Bool := false
  deriving DecidableEq, Inhabited

namespace Sink

/-- Sets the threshold, and attaches the stream if there is none yet. -/
def configure (s : Sink) (v : Value) : Except ThresholdFault Sink :=
  (Log.threshold v).map fun n => { s with threshold := n, attached := true }

/-- The threshold in force. Zero leaves it at that of warnings. -/
def effective (s : Sink) : Int := if s.threshold = 0 then Level.warning.rank else s.threshold

/-- Whether a logger belongs to the interpreter. -/
def covers (logger : String) : Bool :=
  logger == rootLogger || (rootLogger ++ ".").toList.isPrefixOf logger.toList

def accepts (s : Sink) (r : Record) : Bool :=
  s.attached && covers r.logger && s.effective ≤ r.level.rank

/-- The lines that a sink writes for some records. -/
def lines (s : Sink) (rs : List Record) : List String := (rs.filter s.accepts).map Record.display

end Sink

end Trazo.Log
