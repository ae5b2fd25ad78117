import TowerOfHanoi.Peg

/-!
# Moves

A move carries one disk from one peg to another. Disks are numbered from the smallest, which is
disk `1`. A move has two written forms: `text`, which names the pegs only and is what a listing
shows, and `description`, which also gives the disk.
-/

namespace TowerOfHanoi

/-- Disk `disk` leaves peg `src` and lands on peg `dst`. -/
structure Move where
  disk : Nat
  src : Peg
  dst : Peg
  deriving DecidableEq, Repr, Inhabited

namespace Move

/-- The line of a listing: the two pegs, without the disk. -/
def text (m : Move) : String :=
  "move " ++ m.src.name ++ " --> " ++ m.dst.name

/-- All three parts of a move, each with its label. -/
def description (m : Move) : String :=
  "Move \x7b disk: " ++ toString m.disk ++ ", from: " ++ m.src.name ++ ", to: " ++ m.dst.name ++ " \x7d"

/-- The move that takes the disk back. -/
def undo (m : Move) : Move := ⟨m.disk, m.dst, m.src⟩

/-- The same move with the pegs renamed by `f`. -/
def relabel (f : Peg → Peg) (m : Move) : Move := ⟨m.disk, f m.src, f m.dst⟩

@[simp]
theorem undo_undo (m : Move) : m.undo.undo = m := rfl

@[simp]
theorem undo_relabel (f : Peg → Peg) (m : Move) : (m.relabel f).undo = m.undo.relabel f := rfl

end Move

end TowerOfHanoi
