import TowerOfHanoi.Session
import TowerOfHanoi.Output.Buffer

/-!
# Where output goes

A sink takes text in some monad and may fail. `Stream` is a sink as a value: a buffer in front of a
device that takes everything, refuses everything with some fault, or is closed by its reader after a
number of lines.
-/

namespace TowerOfHanoi.Output

/-- A place for text, in a monad `m`, with faults `ω`. A fault is a value, so that the one who
writes can say what was being written. -/
structure Sink (m : Type → Type) (ω : Type) where
  put : String → m (Except ω Unit)
  flush : m (Except ω Unit)

/-- A fault of a device, as the operating system names and numbers it. -/
structure Fault where
  reason : String
  number : Nat
  deriving DecidableEq, Repr

namespace Fault

/-- The wording of a fault. -/
def message (f : Fault) : String := f.reason ++ " (os error " ++ toString f.number ++ ")"

/-- The device is full. -/
def noSpace : Fault := ⟨"No space left on device", 28⟩

/-- The reader is gone. -/
def brokenPipe : Fault := ⟨"Broken pipe", 32⟩

end Fault

/-- A device for output. -/
inductive Device where
  /-- Every write succeeds. -/
  | working
  /-- Every write fails, and this is what the writer is told. -/
  | refusing (fault : Fault)
  /-- The reader takes this many more lines and goes away. -/
  | closing (lines : Nat)
  deriving DecidableEq, Repr

/-- The device that has no space left. -/
def Device.full : Device := .refusing .noSpace

/-- How many lines a text ends. -/
def lineCount (text : String) : Nat := text.toList.count '\n'

/-- The first `n` lines, with their newlines. -/
def firstLines : Nat → List Char → List Char
  | 0, _ => []
  | _ + 1, [] => []
  | n + 1, c :: cs => c :: firstLines (if c = '\n' then n else n + 1) cs

/-- Writes a chunk. Gives what reaches the reader, and the device for the next write. A reader that
has all its lines is noticed at the write after that. -/
def Device.write (chunk : String) : Device → Except Fault (String × Device)
  | working => .ok (chunk, working)
  | refusing fault => .error fault
  | closing 0 => .error .brokenPipe
  | closing lines =>
    .ok (String.ofList (firstLines lines chunk.toList), closing (lines - lineCount chunk))

/-- A device, the text that has reached its reader, and the text collected for it. -/
structure Stream where
  device : Device
  received : String := ""
  collected : String := ""
  deriving DecidableEq, Repr

namespace Stream

/-- Gives chunks to the device until it refuses one. -/
def deliver (s : Stream) : List String → Except Fault Unit × Stream
  | [] => (.ok (), s)
  | chunk :: rest =>
    match s.device.write chunk with
    | .error fault => (.error fault, s)
    | .ok (taken, device) => deliver ⟨device, s.received ++ taken, s.collected⟩ rest

/-- Delivers what has to go out, and keeps the remainder if that succeeds. -/
def handOver (s : Stream) (h : Handover) : Except Fault Unit × Stream :=
  match s.deliver h.chunks with
  | (.error fault, s) => (.error fault, s)
  | (.ok (), s) => (.ok (), ⟨s.device, s.received, h.kept⟩)

/-- Writes a text. -/
def put (s : Stream) (text : String) : Except Fault Unit × Stream :=
  s.handOver (push s.collected text)

/-- Sends on all that has been collected. -/
def flush (s : Stream) : Except Fault Unit × Stream := s.handOver (drain s.collected)

/-- The stream as a sink. -/
def sink {ε : Type} : Sink (Session Stream ε) Fault where
  put text := Session.step (·.put text)
  flush := Session.step (·.flush)

end Stream

end TowerOfHanoi.Output
