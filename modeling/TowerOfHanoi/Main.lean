import TowerOfHanoi.Command.Run

/-!
# The program

Gives the work of `TowerOfHanoi.Command.perform` a real console: standard input, buffered standard
output, and events on standard error as they happen. A listing is written while it is found, so a
reader that goes away ends it.
-/

namespace TowerOfHanoi.Program

open Command Output

/-- What the program needs at hand while it works. -/
structure Console where
  filter : Log.Filter
  style : Log.Style
  collected : IO.Ref String

/-- The monad of the running program. -/
abbrev Live := ReaderT Console (ExceptT (Failure Fault) IO)

/-- Events go to standard error if the filter lets them through. -/
instance : Log.Logger Live where
  log event := do
    let console ← read
    if console.filter.admits event then (IO.eprint (console.style.line event) : IO Unit)

/-- What the operating system had to say about a failed write. -/
def faultOf : IO.Error → Fault
  | .resourceVanished code details => ⟨details, code.toNat⟩
  | .resourceExhausted _ code details => ⟨details, code.toNat⟩
  | .hardwareFault code details => ⟨details, code.toNat⟩
  | .otherError code details => ⟨details, code.toNat⟩
  | e => ⟨toString e, 0⟩

/-- Writes a chunk to standard output. -/
def writeOut (chunk : String) : IO (Except Fault Unit) := do
  try
    let stdout ← IO.getStdout
    stdout.putStr chunk
    stdout.flush
    return .ok ()
  catch e => return .error (faultOf e)

/-- Writes chunks until one fails. -/
def writeAll : List String → IO (Except Fault Unit)
  | [] => return .ok ()
  | chunk :: rest => do
    match ← writeOut chunk with
    | .ok () => writeAll rest
    | .error fault => return .error fault

/-- Lets a buffer decide what goes out. -/
def handOver (decide : String → Handover) : Live (Except Fault Unit) := do
  let console ← read
  let h := decide (← (console.collected.get : IO String))
  (console.collected.set h.kept : IO Unit)
  (writeAll h.chunks : IO (Except Fault Unit))

/-- Buffered standard output. -/
def stdoutSink : Sink Live Fault where
  put text := handOver (push · text)
  flush := handOver drain

/-- Prints a text about the program. Whether anyone receives it makes no difference. -/
def announceText (text : String) : IO UInt32 := do
  let _ ← writeOut text
  return 0

/-- Ends a run that breaks down. -/
def giveUp (b : Breakdown) : IO UInt32 := do
  IO.eprintln b.message
  return Breakdown.code

/-- Prints the manual, which has to be received. -/
def showManual : IO UInt32 := do
  match ← writeAll [manualBody, "\n"] with
  | .ok () => return 0
  | .error fault => giveUp (.notPrinted fault)

/-- Works as the settings say, with the log as the environment has it. The pattern of a written
filter is looked for as it stands. -/
def start (settings : Settings) : IO UInt32 := do
  let (filter, warnings) :=
    Log.Filter.configure .literal settings.threshold (← IO.getEnv "RUST_LOG")
  IO.eprint (warningText warnings)
  if settings.manual then showManual
  else
    let console : Console :=
      ⟨filter, Log.Style.ofSetting (← IO.getEnv "RUST_LOG_STYLE"), ← IO.mkRef ""⟩
    let input ← (← IO.getStdin).readBinToEnd
    let (code, report) := conclude (← ((perform stdoutSink settings input).run console).run)
    unless report.isEmpty do IO.eprintln report
    return code

/-- Reads the arguments and does what they ask for. -/
def runWith (arguments : List String) : IO UInt32 := do
  match readArguments arguments with
  | .error .help => announceText helpText
  | .error .version => announceText versionText
  | .error (.refused e) =>
    IO.eprint (unlines ["error: " ++ e.message])
    return 2
  | .error (.brokeDown b) => giveUp b
  | .ok settings => start settings

end TowerOfHanoi.Program

def main (arguments : List String) : IO UInt32 := TowerOfHanoi.Program.runWith arguments
