/-!
# Pegs

The three pegs of the puzzle. The tower starts on `a` and is to be brought to `c`.
-/

namespace TowerOfHanoi

/-- One of the three pegs. -/
inductive Peg where
  | a
  | b
  | c
  deriving DecidableEq, Repr, Inhabited

namespace Peg

/-- All pegs, from left to right. -/
def all : List Peg := [a, b, c]

/-- The capital letter that names a peg. -/
def letter : Peg → Char
  | a => 'A'
  | b => 'B'
  | c => 'C'

/-- The name of a peg as text. -/
def name (p : Peg) : String := String.singleton p.letter

/-- The peg of a given letter. -/
def ofLetter? (letter : Char) : Option Peg := all.find? (·.letter = letter)

theorem ofLetter?_letter (p : Peg) : ofLetter? p.letter = some p := by
  cases p <;> rfl

end Peg

end TowerOfHanoi
