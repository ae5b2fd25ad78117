import TowerOfHanoi.Command.Settings
import TowerOfHanoi.Text.Terminal

/-!
# Usage errors

What can be wrong with the arguments of the program. A message quotes what was given, but only what
is visible of it, so that no argument can act on a terminal through a message.
-/

namespace TowerOfHanoi.Command

/-- Why an argument list is refused. -/
inductive UsageError where
  /-- An option is given without its value. -/
  | missingValue (choice : Choice)
  /-- The value of an option is none of those it can have. -/
  | badValue (choice : Choice) (value : String)
  /-- An option is given twice. -/
  | repeatedChoice (choice : Choice)
  /-- A switch is given twice. -/
  | repeatedSwitch (switch : Switch)
  /-- A value is given to something that takes none. -/
  | superfluousValue (name value : String)
  /-- An argument that nothing is waiting for. -/
  | unexpected (argument : String)
  deriving DecidableEq, Repr

namespace UsageError

/-- What is said about a bad value, beyond that it is one. -/
def hint : Choice → String
  | .method => ""
  | .logLevel => ": attempted to convert a string that doesn't match an existing log level"

/-- The cannot-be-given-twice message for an option or switch. -/
def repeated (label : String) : String :=
  "the argument '" ++ label ++ "' cannot be used multiple times"

/-- What was given, between quotes. -/
def quoted (given : String) : String := "'" ++ Text.visible given ++ "'"

/-- The wording of a usage error. -/
def message : UsageError → String
  | missingValue choice =>
    "a value is required for '" ++ choice.label ++ "' but none was supplied"
  | badValue choice value =>
    "invalid value " ++ quoted value ++ " for '" ++ choice.label ++ "'" ++ hint choice
  | repeatedChoice choice => repeated choice.label
  | repeatedSwitch switch => repeated switch.label
  | superfluousValue name value =>
    "unexpected value " ++ quoted value ++ " for '--" ++ name ++ "' found; no more were expected"
  | unexpected argument => "unexpected argument " ++ quoted argument ++ " found"

end UsageError

end TowerOfHanoi.Command
