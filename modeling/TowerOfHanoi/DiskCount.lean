import TowerOfHanoi.Text.Blank
import TowerOfHanoi.Text.Decimal

/-!
# Reading the disk count

The disk count is the first word of a text; what follows the word is not looked at. A count is a
decimal numeral, with at most one `+` before it, of at most `maxDiskCount`. A numeral after a `-` is
zero if all its digits are, and otherwise too small, however long it is.
-/

namespace TowerOfHanoi

/-- The largest disk count that can be read. -/
def maxDiskCount : Nat := 4294967295

/-- Why a text gives no disk count. -/
inductive InputError where
  /-- There is no word at all. -/
  | missing
  /-- The word is not a numeral, or is one beyond the largest count. -/
  | malformed (word : String)
  /-- The word is a numeral below zero. -/
  | negative (word : String)
  deriving DecidableEq, Repr

namespace InputError

/-- The wording of an input error. -/
def message : InputError → String
  | missing => "no disk count given"
  | malformed word => "invalid disk count `" ++ word ++ "`"
  | negative word => "disk count must not be negative, got `" ++ word ++ "`"

end InputError

namespace DiskCount

/-- Reads the digits of a count, and blames `word` if they are none. -/
def ofDigits (word digits : List Char) : Except InputError Nat :=
  match Text.numeralUpTo? maxDiskCount digits with
  | some n => .ok n
  | none => .error (.malformed (String.ofList word))

/-- Reads a single word. -/
def ofWord (word : List Char) : Except InputError Nat :=
  match word with
  | [] => .error .missing
  | '-' :: digits =>
    if Text.isNumeral digits then
      if digits.all (· = '0') then .ok 0 else .error (.negative (String.ofList word))
    else .error (.malformed (String.ofList word))
  | '+' :: digits => ofDigits word digits
  | digits => ofDigits word digits

/-- Reads the first word of a text as a disk count. -/
def read (text : String) : Except InputError Nat := ofWord (Text.firstWord text.toList)

end DiskCount

end TowerOfHanoi
