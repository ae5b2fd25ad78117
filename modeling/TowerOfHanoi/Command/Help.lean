import TowerOfHanoi.Command.Settings

/-!
# Texts about the program

The version, the short help, and the manual in Markdown.
-/

namespace TowerOfHanoi.Command

/-- The lines as one text, each ended by a newline. -/
def unlines (lines : List String) : String := String.join (lines.map (· ++ "\n"))

/-- What the program is for, in one sentence. -/
def purpose : String := "Counts the moves needed to solve the Tower of Hanoi"

/-- What setting the log level does. -/
def logLevelPurpose : String := "Set log filter value [ off, error, warn, info, debug, trace ]"

/-- What choosing a method does. -/
def methodPurpose : String := "How to count the moves"

/-- What listing moves does. -/
def printMovesPurpose : String :=
  "Print every move, one per line, before the count. " ++
    "The moves are always found by the recursive solver"

/-- The names of all strategies, each between `quote`s. -/
def strategyNames (quote : String) : String :=
  ", ".intercalate (Strategy.all.map fun s => quote ++ s.name ++ quote)

/-- The default settings, which the texts quote. -/
def defaultSettings : Settings := {}

/-- The answer to a wish for the version. -/
def versionText : String := unlines ["hanoi 0.1.0"]

/-- The answer to a wish for help. -/
def helpText : String := unlines
  [purpose,
    "",
    "Usage: hanoi [OPTIONS]",
    "",
    "Options:",
    "      --log-level <LOG_LEVEL>  " ++ logLevelPurpose ++
      " [default: " ++ defaultSettings.threshold.name ++ "]",
    "      --method <METHOD>        " ++ methodPurpose ++
      " [default: " ++ defaultSettings.strategy.name ++ "]" ++
      " [possible values: " ++ strategyNames "" ++ "]",
    "      --print-moves            " ++ printMovesPurpose,
    "  -h, --help                   Print help",
    "  -V, --version                Print version"]

/-- The manual without the empty line that ends it. -/
def manualBody : String := unlines
  ["# Command-Line Help for `hanoi`",
    "",
    "This document contains the help content for the `hanoi` command-line program.",
    "",
    "**Command Overview:**",
    "",
    "* [`hanoi`↴](#hanoi)",
    "",
    "## `hanoi`",
    "",
    purpose,
    "",
    "**Usage:** `hanoi [OPTIONS]`",
    "",
    "###### **Options:**",
    "",
    "* `--log-level <LOG_LEVEL>` — " ++ logLevelPurpose,
    "",
    "  Default value: `" ++ defaultSettings.threshold.name ++ "`",
    "* `--method <METHOD>` — " ++ methodPurpose,
    "",
    "  Default value: `" ++ defaultSettings.strategy.name ++ "`",
    "",
    "  Possible values: " ++ strategyNames "`",
    "",
    "* `--print-moves` — " ++ printMovesPurpose,
    "",
    "  Default value: `false`",
    "",
    "",
    "",
    "<hr/>",
    "",
    "<small><i>",
    "    This document was generated automatically by",
    "    <a href=\"https://crates.io/crates/clap-markdown\"><code>clap-markdown</code></a>.",
    "</i></small>"]

/-- The manual. -/
def manualText : String := manualBody ++ "\n"

end TowerOfHanoi.Command
