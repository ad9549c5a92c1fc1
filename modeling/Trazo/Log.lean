/-!
Records of what happens, for those who watch the interpreter at work.
-/

namespace Trazo.Log

inductive Level
  | debug | info | warning | error | critical
  deriving DecidableEq, Inhabited

namespace Level

def all : List Level := [.debug, .info, .warning, .error, .critical]

def name : Level → String
  | .debug => "DEBUG"
  | .info => "INFO"
  | .warning => "WARNING"
  | .error => "ERROR"
  | .critical => "CRITICAL"

/-- How grave a level is. -/
def rank : Level → Nat
  | .debug => 10
  | .info => 20
  | .warning => 30
  | .error => 40
  | .critical => 50

def ofName? (s : String) : Option Level := all.find? fun l => l.name == s

end Level

structure Record where
  level : Level
  logger : String
  text : String
  deriving DecidableEq, Inhabited

/-- A record on one line. -/
def Record.display (r : Record) : String := r.level.name ++ " " ++ r.logger ++ ": " ++ r.text

end Trazo.Log
