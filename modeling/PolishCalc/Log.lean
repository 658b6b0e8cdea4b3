import PolishCalc.Text

namespace PolishCalc

inductive Severity
  | debug
  | warning
  deriving DecidableEq, Repr

def Severity.name : Severity → String
  | .debug => "DEBUG"
  | .warning => "WARNING"

def Severity.rank : Severity → Nat
  | .debug => 10
  | .warning => 30

/-- A note for whoever watches the program run. -/
structure LogEvent where
  severity : Severity
  origin : String
  message : String
  deriving DecidableEq, Repr

def LogEvent.text (e : LogEvent) : String :=
  e.severity.name ++ ":" ++ e.origin ++ ":" ++ e.message

/-- The names of log levels, with the least rank that is still written. -/
def logLevels : List (String × Nat) :=
  [("CRITICAL", 50), ("FATAL", 50), ("ERROR", 40), ("WARN", 30), ("WARNING", 30), ("INFO", 20),
    ("DEBUG", 10), ("NOTSET", 0)]

/-- The level in force: the one asked for, or the fallback, in capitals; the fallback as it stands
if there is no such level. -/
def logLevel (setting : Option String) (fallback : String) : String :=
  let name := inCapitals (setting.getD fallback)
  if (logLevels.lookup name).isSome then name else fallback

def logRank (level : String) : Nat :=
  (logLevels.lookup level).getD 30

/-- The events that are written at a level, a line each. -/
def logText (level : String) (es : List LogEvent) : String :=
  String.join ((es.filter fun e => logRank level ≤ e.severity.rank).map fun e => e.text ++ "\n")

end PolishCalc
