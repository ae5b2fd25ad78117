import TowerOfHanoi.DiskCount
import TowerOfHanoi.Solver
import TowerOfHanoi.Output.Device

/-!
# Failures of a run

Why a run with good arguments fails, and how the failure is reported: a headline that says what was
being done, and below it the cause. Where there is nothing to add to the cause, it is the headline.
A run that breaks down has no report, only a message about the breakdown.
-/

namespace TowerOfHanoi.Command

/-- Why a run fails, if `ω` is how output fails. -/
inductive Failure (ω : Type) where
  /-- The input is not text. -/
  | unreadable
  /-- The input holds no disk count. -/
  | badInput (e : InputError)
  /-- The moves of this many disks cannot be counted. -/
  | uncountable (disks : Nat) (e : TooManyDisks)
  /-- The moves cannot be listed. -/
  | unlistable (e : TooManyDisks)
  /-- A move could not be written. -/
  | moveNotWritten (fault : ω)
  /-- The count could not be written. -/
  | countNotWritten (fault : ω)
  deriving DecidableEq, Repr

namespace Failure

variable {ω : Type}

/-- What was being done. -/
def headline (describe : ω → String) : Failure ω → String
  | unreadable => "failed to read the disk count from stdin"
  | badInput _ => "failed to parse the disk count"
  | uncountable disks _ => "failed to count the moves for " ++ toString disks ++ " disks"
  | unlistable e => e.message
  | moveNotWritten _ => "failed to write the move list"
  | countNotWritten fault => describe fault

/-- What went wrong, where the headline does not say it. -/
def cause? (describe : ω → String) : Failure ω → Option String
  | unreadable => some "stream did not contain valid UTF-8"
  | badInput e => some e.message
  | uncountable _ e => some e.message
  | unlistable _ => none
  | moveNotWritten fault => some (describe fault)
  | countNotWritten _ => none

/-- The report of a failure. The place in the program where it was noticed, which a full report names
in a last paragraph, is left out. -/
def report (describe : ω → String) (f : Failure ω) : String :=
  "Error: " ++ f.headline describe ++
    match f.cause? describe with
    | none => ""
    | some cause => "\n\nCaused by:\n    " ++ cause

end Failure

/-- What a run does not survive. -/
inductive Breakdown where
  /-- A name was accepted that belongs to no strategy. -/
  | nameWithoutStrategy
  /-- A text that has to be printed could not be. -/
  | notPrinted (fault : Output.Fault)
  deriving DecidableEq, Repr

namespace Breakdown

/-- The exit code of a run that breaks down. -/
def code : UInt32 := 101

/-- The message of a breakdown, without the place in the program and the thread. -/
def message : Breakdown → String
  | nameWithoutStrategy => "called `Result::unwrap()` on an `Err` value: VariantNotFound"
  | notPrinted fault => "failed printing to stdout: " ++ fault.message

end Breakdown

end TowerOfHanoi.Command
