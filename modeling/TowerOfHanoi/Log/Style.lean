import TowerOfHanoi.Log.Filter

/-!
# Styles

How events are written: one line each, plain or with terminal colours.
-/

namespace TowerOfHanoi.Log

/-- Whether lines are coloured. -/
inductive Style where
  | plain
  | coloured
  deriving DecidableEq, Repr

namespace Style

/-- Colours are used only if they are asked for by the word `always`. -/
def ofSetting (setting : Option String) : Style :=
  if setting = some "always" then coloured else plain

/-- The control sequence that undoes all colours. -/
def reset : String := "\x1b[0m"

/-- The control sequence of a severity: red for errors, yellow for warnings. -/
def paint : Severity → String
  | .error => "\x1b[31m"
  | .warn => "\x1b[33m"
  | _ => ""

/-- The line that shows an event, with its newline. -/
def line : Style → Event → String
  | plain, e => e.message ++ "\n"
  | coloured, e => reset ++ paint e.severity ++ e.message ++ reset ++ "\n"

end Style

end TowerOfHanoi.Log
