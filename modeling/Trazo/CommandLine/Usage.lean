import Trazo.CommandLine.Word

/-!
What the program says about its command line.
-/

namespace Trazo.CommandLine

/-- What the program can be told to do. -/
inductive Verb
  | run | check
  deriving DecidableEq, Inhabited

namespace Verb

def name : Verb → String
  | .run => "run"
  | .check => "check"

def all : List Verb := [.run, .check]

def ofName? (s : String) : Option Verb := all.find? fun v => v.name == s

/-- The flags after a verb. -/
def flags : Verb → List Flag
  | .run => [.help, .config, .logLevel, .width, .height, .start, .speed]
  | .check => [.help, .config, .logLevel]

end Verb

/-- A part of the command line: before the verb, or after it. -/
inductive Scope
  | top
  | after (v : Verb)
  deriving DecidableEq, Inhabited

namespace Scope

def flags : Scope → List Flag
  | .top => [.help, .version]
  | .after v => v.flags

/-- How the program is called up to this part. -/
def program : Scope → String
  | .top => "qdraw"
  | .after v => "qdraw " ++ v.name

def usageLines : Scope → List String
  | .top => ["usage: qdraw [-h] [--version] \x7brun,check\x7d ..."]
  | .after .run =>
    ["usage: qdraw run [-h] [--config CONFIG]",
     "                 [--log-level \x7bdebug,info,warning,error\x7d] [--width WIDTH]",
     "                 [--height HEIGHT] [--start X,Y]",
     "                 [--speed \x7binstant,fast,normal,slow\x7d]",
     "                 file"]
  | .after .check =>
    ["usage: qdraw check [-h] [--config CONFIG]",
     "                   [--log-level \x7bdebug,info,warning,error\x7d]",
     "                   file"]

/-- What all verbs are told about alike. -/
def commonLines : List String :=
  ["",
   "positional arguments:",
   "  file                  Path to the Qdraw source file",
   "",
   "options:",
   "  -h, --help            show this help message and exit",
   "  --config CONFIG       Path to a TOML or JSON settings file",
   "  --log-level \x7bdebug,info,warning,error\x7d",
   "                        Logging level (or set QDRAW_LOG_LEVEL)"]

def helpLines : Scope → List String
  | .top =>
    ["",
     "Qdraw - run drawing programs on a grid board",
     "",
     "positional arguments:",
     "  \x7brun,check\x7d  Available commands",
     "    run        Run a program and print the final board",
     "    check      Check a program for errors without running it",
     "",
     "options:",
     "  -h, --help   show this help message and exit",
     "  --version    show program's version number and exit"]
  | .after .run =>
    commonLines ++
    ["  --width WIDTH         Board width (default: 8)",
     "  --height HEIGHT       Board height (default: 8)",
     "  --start X,Y           Initial head position (default: 0,0)",
     "  --speed \x7binstant,fast,normal,slow\x7d",
     "                        Pause after each command (default: instant)"]
  | .after .check => commonLines

end Scope

def versionLine : String := "qdraw 1.0.0"

end Trazo.CommandLine
