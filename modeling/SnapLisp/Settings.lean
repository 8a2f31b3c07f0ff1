import SnapLisp.Text.Blank
import SnapLisp.Text.UpperCase
/-!
# Settings

The prompt and the log level, as two variables of the surroundings set them. A variable that is
unset or blank leaves the default.
-/

namespace SnapLisp

/-- The severities below which nothing is logged. -/
inductive Level
  | everything
  | debug
  | info
  | warning
  | error
  | critical
deriving DecidableEq

namespace Level

def severity : Level → Nat
  | everything => 0
  | debug => 10
  | info => 20
  | warning => 30
  | error => 40
  | critical => 50

def names : List (String × Level) := [
  ("NOTSET", everything), ("DEBUG", debug), ("INFO", info), ("WARN", warning),
  ("WARNING", warning), ("ERROR", error), ("FATAL", critical), ("CRITICAL", critical)]

/-- The level of a name in any case and with blanks around it. -/
def ofName? (name : String) : Option Level :=
  names.lookup (String.ofList ((trim name.toList).flatMap upperCase))

end Level

/-- The variables as the surroundings have them. -/
structure Settings where
  prompt : Option String
  level : Option String

namespace Settings

def valueOr (fallback : String) : Option String → String
  | none => fallback
  | some raw => if trim raw.toList = [] then fallback else raw

def promptText (settings : Settings) : String :=
  valueOr ">" settings.prompt

/-- The log level; a name that is unknown leaves the default too. -/
def logLevel (settings : Settings) : Level :=
  (Level.ofName? (valueOr "WARNING" settings.level)).getD .warning

def isVerbose (settings : Settings) : Bool :=
  settings.logLevel.severity ≤ Level.debug.severity

end Settings

end SnapLisp
