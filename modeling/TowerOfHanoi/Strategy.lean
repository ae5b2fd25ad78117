/-!
# Ways of counting moves

A tower can be counted by walking its solution, by the closed form `2 ^ d - 1`, or by doubling: each
further disk turns `n` moves into `2 * n + 1`. This module names the three and gives the two that
are plain arithmetic; counting by walking is in `TowerOfHanoi.Count`.
-/

namespace TowerOfHanoi

/-- How the moves of a solution are counted. -/
inductive Strategy where
  /-- Walk the recursive solution and count each move. -/
  | recursive
  /-- Evaluate `2 ^ d - 1`. -/
  | closedForm
  /-- Start from zero and apply `n ↦ 2 * n + 1` once for each disk. -/
  | doubling
  deriving DecidableEq, Repr

namespace Strategy

instance : Inhabited Strategy := ⟨closedForm⟩

/-- All strategies, in the order in which they are listed. -/
def all : List Strategy := [recursive, closedForm, doubling]

/-- The name by which a strategy is asked for. -/
def name : Strategy → String
  | recursive => "recursive"
  | closedForm => "closed-form"
  | doubling => "doubling"

/-- The strategy of a given name. Names are matched exactly. -/
def ofName? (name : String) : Option Strategy := all.find? (·.name = name)

theorem ofName?_name (s : Strategy) : ofName? s.name = some s := by
  cases s <;> decide

theorem name_of_ofName? {name : String} {s : Strategy} (h : ofName? name = some s) :
    s.name = name := by
  simpa using List.find?_some h

/-- The listed names are those that belong to a strategy. -/
theorem mem_names_iff {name : String} :
    name ∈ all.map Strategy.name ↔ ∃ s, ofName? name = some s := by
  constructor
  · intro h
    obtain ⟨s, -, rfl⟩ := List.mem_map.mp h
    exact ⟨s, ofName?_name s⟩
  · rintro ⟨s, hs⟩
    exact List.mem_map.mpr ⟨s, List.mem_of_find?_eq_some hs, name_of_ofName? hs⟩

theorem eq_of_name_eq {s s' : Strategy} (h : s.name = s'.name) : s = s' := by
  apply Option.some.inj
  rw [← ofName?_name, ← ofName?_name, h]

end Strategy

/-- The number of moves that a tower of `disks` disks needs, which is `2 ^ disks - 1`. -/
def moveCount (disks : Nat) : Nat := (1 <<< disks) - 1

/-- The same number, found by doubling. -/
def moveCountByDoubling (disks : Nat) : Nat := Nat.repeat (fun n => 2 * n + 1) disks 0

theorem moveCountByDoubling_succ (disks : Nat) :
    moveCountByDoubling (disks + 1) = 2 * moveCountByDoubling disks + 1 := rfl

/-- How many binary digits a number has; zero has none. -/
def bitLength (n : Nat) : Nat := if n = 0 then 0 else n.log2 + 1

end TowerOfHanoi
