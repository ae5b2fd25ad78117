/-!
# Decimal numerals

Reading numerals of ASCII digits. Any number of leading zeros is allowed, so a number has many
numerals; `toString` writes the one without.
-/

namespace TowerOfHanoi.Text

/-- One or more ASCII digits. -/
def isNumeral (cs : List Char) : Bool := !cs.isEmpty && cs.all Char.isDigit

/-- The number that a numeral stands for. -/
def numeral? (cs : List Char) : Option Nat :=
  if isNumeral cs then some (Nat.ofDigitChars 10 cs 0) else none

/-- The number that a numeral stands for, if that is at most `limit`. -/
def numeralUpTo? (limit : Nat) (cs : List Char) : Option Nat :=
  (numeral? cs).filter fun n => decide (n ≤ limit)

theorem isNumeral_toDigits (n : Nat) : isNumeral (Nat.toDigits 10 n) = true := by
  have digits : (Nat.toDigits 10 n).all Char.isDigit = true :=
    List.all_eq_true.2 fun _ h => Nat.isDigit_of_mem_toDigits (by decide) (by decide) h
  simp [isNumeral, digits, Nat.toDigits_ne_nil]

end TowerOfHanoi.Text
