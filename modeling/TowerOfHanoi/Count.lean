import TowerOfHanoi.Solver

/-!
# Counting by a strategy
-/

namespace TowerOfHanoi

/-- Counts the moves of a tower. Only the recursive strategy can refuse. -/
@[specialize]
def Strategy.count {m : Type → Type} [Monad m] {ε : Type} [Log.Logger m] [MonadExcept ε m]
    (refuse : TooManyDisks → ε) (strategy : Strategy) (disks : Nat) : m Nat := do
  Log.log (.counting disks strategy)
  match strategy with
  | .recursive =>
    let count ← solve refuse (fun _ => pure ()) disks
    pure count.toNat
  | .closedForm => pure (moveCount disks)
  | .doubling => pure (moveCountByDoubling disks)

end TowerOfHanoi
