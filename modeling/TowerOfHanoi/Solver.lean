import TowerOfHanoi.Log.Event
import TowerOfHanoi.Solution

/-!
# Solving with a listener

`solve` walks the recursive solution from peg `a` to peg `c` and tells a listener about every move.
The moves are counted in 64 bits, which is why towers of more than `maxWalkedDisks` disks are
refused: a tower of 64 disks takes `2 ^ 64 - 1` moves, the largest number of 64 bits.
-/

namespace TowerOfHanoi

/-- The tallest tower whose moves can be counted in 64 bits. -/
def maxWalkedDisks : Nat := 64

/-- A tower is too tall to be walked. -/
structure TooManyDisks where
  disks : Nat
  limit : Nat
  deriving DecidableEq, Repr

/-- The wording of the refusal. -/
def TooManyDisks.message (e : TooManyDisks) : String :=
  "recursive counting supports at most " ++ toString e.limit ++ " disks, got " ++ toString e.disks

section

variable {m : Type → Type} [Monad m] {ε : Type}

/-- Shows a move to the listener, and counts it once the listener has accepted it. -/
@[inline]
def tally (onMove : Move → m Unit) (count : UInt64) (move : Move) : m UInt64 := do
  onMove move
  pure (count + 1)

/-- Solves a tower of `disks` disks. Every move is shown to `onMove` in the order it is made, and a
failure of `onMove` ends the walk. Gives the number of moves. -/
@[specialize]
def solve [Log.Logger m] [MonadExcept ε m] (refuse : TooManyDisks → ε) (onMove : Move → m Unit)
    (disks : Nat) : m UInt64 :=
  if disks > maxWalkedDisks then throw (refuse ⟨disks, maxWalkedDisks⟩)
  else do
    Log.log (.solving disks)
    let count ← carryM (tally onMove) disks .a .b .c 0
    Log.log (.solved disks count)
    pure count

end

end TowerOfHanoi
