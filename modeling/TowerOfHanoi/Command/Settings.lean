import TowerOfHanoi.Strategy
import TowerOfHanoi.Log.Severity

/-!
# Settings

What a run of the program can be told to do, and the names of the options that say so. There are
two options that take a value and two switches that take none.
-/

namespace TowerOfHanoi.Command

/-- What the program has been told to do. -/
structure Settings where
  /-- How to count. -/
  strategy : Strategy := .closedForm
  /-- Which events to show, unless the environment has it otherwise. -/
  threshold : Log.Threshold := .upTo .info
  /-- Show every move before the count. -/
  listMoves : Bool := false
  /-- Print the manual and do nothing else. -/
  manual : Bool := false
  deriving DecidableEq, Repr

instance : Inhabited Settings := ⟨{}⟩

/-- An option that takes a value. -/
inductive Choice where
  | method
  | logLevel
  deriving DecidableEq, Repr

/-- An option that takes no value. -/
inductive Switch where
  | printMoves
  | markdownHelp
  deriving DecidableEq, Repr

/-- The name of an option, without its dashes. -/
def Choice.name : Choice → String
  | method => "method"
  | logLevel => "log-level"

/-- An option as messages call it: with its dashes and the kind of value it takes. -/
def Choice.label : Choice → String
  | method => "--method <METHOD>"
  | logLevel => "--log-level <LOG_LEVEL>"

/-- The name of a switch, without its dashes. -/
def Switch.name : Switch → String
  | printMoves => "print-moves"
  | markdownHelp => "markdown-help"

/-- A switch as messages call it. -/
def Switch.label (s : Switch) : String := "--" ++ s.name

end TowerOfHanoi.Command
