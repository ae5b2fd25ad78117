import TowerOfHanoi.Command.Arguments
import TowerOfHanoi.Command.Help
import TowerOfHanoi.Command.Perform
import TowerOfHanoi.Log.Spec
import TowerOfHanoi.Log.Style

/-!
# A run of the program

The program as a function: from its arguments, its input, two variables of the environment and the
device behind its output, to an exit code and the texts on its two output channels. What the patterns
in a written filter mean is left to the invocation too.

Events are told to a session and filtered only afterwards, when they are written out, so nothing
but the error channel can depend on the log settings.
-/

namespace TowerOfHanoi.Command

/-- All that a run depends on. -/
structure Invocation where
  arguments : List String
  input : ByteArray
  /-- A written filter for events. -/
  logSpec : Option String := none
  /-- How the pattern of that filter is read. -/
  patterns : Log.PatternLanguage := .literal
  /-- Whether to colour events. -/
  logStyle : Option String := none
  device : Output.Device := .working

/-- All that a run shows. -/
structure Outcome where
  code : UInt32
  stdout : String
  stderr : String
  deriving DecidableEq, Repr

/-- Prints a text and ends well, whatever becomes of the text. -/
def announce (device : Output.Device) (text stderr : String) : Outcome :=
  let stream : Output.Stream := ⟨device, "", ""⟩
  ⟨0, (stream.deliver [text]).2.received, stderr⟩

/-- The end of a run that breaks down. -/
def breakDown (b : Breakdown) (stdout stderr : String) : Outcome :=
  ⟨Breakdown.code, stdout, stderr ++ b.message⟩

/-- Prints the manual, and its last line by a write of its own. Unlike the other texts about the
program, it has to be printed. -/
def printManual (device : Output.Device) (stderr : String) : Outcome :=
  let stream : Output.Stream := ⟨device, "", ""⟩
  match stream.deliver [manualBody, "\n"] with
  | (.ok (), stream) => ⟨0, stream.received, stderr⟩
  | (.error fault, stream) => breakDown (.notPrinted fault) stream.received stderr

/-- The warnings about a written filter, one a line. -/
def warningText (warnings : List Log.SpecWarning) : String := unlines (warnings.map (·.message))

/-- The events that a filter lets through, one a line. -/
def eventText (filter : Log.Filter) (style : Log.Style) (events : List Log.Event) : String :=
  String.join ((events.filter filter.admits).map style.line)

/-- The work of a run on a buffered stream. -/
def work (settings : Settings) (input : ByteArray) (device : Output.Device) :
    Trace Output.Stream (Failure Output.Fault) Unit :=
  (perform Output.Stream.sink settings input).run ⟨device, "", ""⟩

/-- The exit code of a result, and the report that comes with it. -/
def conclude : Except (Failure Output.Fault) Unit → UInt32 × String
  | .ok () => (0, "")
  | .error failure => (1, failure.report Output.Fault.message)

/-- Runs the program. -/
def run (invocation : Invocation) : Outcome :=
  match readArguments invocation.arguments with
  | .error .help => announce invocation.device helpText ""
  | .error .version => announce invocation.device versionText ""
  | .error (.refused e) => ⟨2, "", unlines ["error: " ++ e.message]⟩
  | .error (.brokeDown b) => breakDown b "" ""
  | .ok settings =>
    let (filter, warnings) :=
      Log.Filter.configure invocation.patterns settings.threshold invocation.logSpec
    if settings.manual then printManual invocation.device (warningText warnings)
    else
      let trace := work settings invocation.input invocation.device
      let (code, report) := conclude trace.result
      let style := Log.Style.ofSetting invocation.logStyle
      ⟨code, trace.state.received,
        warningText warnings ++ eventText filter style trace.events ++ report⟩

end TowerOfHanoi.Command
