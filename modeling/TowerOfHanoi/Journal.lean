import TowerOfHanoi.Session
import TowerOfHanoi.Solver

/-!
# Keeping a journal of a walk

A listener that writes down every move it is shown and may halt the walk at a given move, and
questions about what has been written down.
-/

namespace TowerOfHanoi

/-- The moves seen so far, in order. -/
abbrev Journal := Array Move

namespace Journal

/-- Why a walk with a journal did not reach its end. -/
inductive Interruption where
  /-- The tower is too tall. -/
  | refused (e : TooManyDisks)
  /-- The listener halted the walk at this move, counted from one. -/
  | halted (position : Nat)
  deriving DecidableEq, Repr

/-- Writes the move down, and then halts the walk if this was move number `haltAt`. -/
def keep (haltAt : Option Nat) (move : Move) : Session Journal Interruption Unit := do
  let seen ← Session.step fun journal =>
    let journal := journal.push move
    (journal.size, journal)
  if haltAt = some seen then throw (.halted seen)

/-- Solves a tower while keeping a journal. -/
def solve (haltAt : Option Nat) (disks : Nat) : Trace Journal Interruption UInt64 :=
  (TowerOfHanoi.solve Interruption.refused (keep haltAt) disks).run #[]

/-- The moves from index `skip` on, at most `take` of them if a bound is given. -/
def window (journal : Journal) (skip : Nat) (take : Option Nat) : List Move :=
  let rest := journal.toList.drop skip
  match take with
  | none => rest
  | some n => rest.take n

/-- How many of the moves go from `src` to `dst`. -/
def traffic (journal : Journal) (src dst : Peg) : Nat :=
  journal.toList.countP fun m => m.src = src && m.dst = dst

/-- The peg pairs that were used, with the number of moves for each. -/
def tallies (journal : Journal) : List (Peg × Peg × Nat) :=
  (Peg.all.flatMap fun src => Peg.all.map fun dst => (src, dst, journal.traffic src dst)).filter
    fun entry => entry.2.2 ≠ 0

end Journal

end TowerOfHanoi
