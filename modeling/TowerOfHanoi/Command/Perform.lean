import TowerOfHanoi.Count
import TowerOfHanoi.Command.Failure
import TowerOfHanoi.Command.Settings

/-!
# The work of a run

Reading the disk count, listing or counting the moves, and writing the result, in any monad that
can fail and tell events. Output goes to a sink of that monad, so the same definition serves the
running program and the pure account of it in `TowerOfHanoi.Command.Run`.
-/

namespace TowerOfHanoi.Command

section

variable {m : Type → Type} [Monad m] {ω : Type}

/-- Goes on after a write that succeeded, and fails as `blame` says after one that did not. -/
@[inline]
def expect [MonadExcept (Failure ω) m] (blame : ω → Failure ω) (write : m (Except ω Unit)) :
    m Unit := do
  match ← write with
  | .ok () => pure ()
  | .error fault => throw (blame fault)

/-- Writes the moves, one a line. Gives their number. Listing always walks the solution, and says so
if another strategy was asked for. -/
@[specialize]
def listMoves [Log.Logger m] [MonadExcept (Failure ω) m] (sink : Output.Sink m ω)
    (strategy : Strategy) (disks : Nat) : m Nat := do
  if strategy ≠ .recursive then Log.log (.strategyIgnored strategy)
  let count ← solve (Failure.unlistable : TooManyDisks → Failure ω)
    (fun move => expect .moveNotWritten (sink.put (move.text ++ "\n"))) disks
  pure count.toNat

/-- Reads the disk count out of the raw input. -/
def diskCount (ω : Type) [MonadExcept (Failure ω) m] (input : ByteArray) : m Nat :=
  match String.fromUTF8? input with
  | none => throw (Failure.unreadable : Failure ω)
  | some text =>
    match DiskCount.read text with
    | .error e => throw (Failure.badInput e : Failure ω)
    | .ok disks => pure disks

/-- Does what the settings ask for. -/
@[specialize]
def perform [Log.Logger m] [MonadExcept (Failure ω) m] (sink : Output.Sink m ω)
    (settings : Settings) (input : ByteArray) : m Unit := do
  let disks ← diskCount ω input
  Log.log (.diskCountRead disks)
  let count ←
    if settings.listMoves then listMoves sink settings.strategy disks
    else settings.strategy.count (Failure.uncountable disks : TooManyDisks → Failure ω) disks
  expect .countNotWritten (sink.put (toString count ++ "\n"))
  expect .countNotWritten sink.flush

end

end TowerOfHanoi.Command
