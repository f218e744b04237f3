/-!
# Words and numerals

A word is a run of ASCII letters, digits and underscores; a numeral is a run of ASCII digits, read
in base ten.
-/

namespace TrackPlan.Text

/-- ASCII letters, digits and the underscore. -/
def isWordChar (c : Char) : Bool := c.isAlphanum || c == '_'

/-- The value of one digit. -/
def digitValue (c : Char) : Nat := c.toNat - '0'.toNat

/-- The number that a run of decimal digits denotes; leading zeros add nothing. -/
def decimal (cs : List Char) : Nat := cs.foldl (fun n c => n * 10 + digitValue c) 0

/-- The value of a hexadecimal digit in either case. -/
def hexValue? (c : Char) : Option Nat :=
  if c.isDigit then some (digitValue c)
  else if 'a' ≤ c ∧ c ≤ 'f' then some (c.toNat - 'a'.toNat + 10)
  else if 'A' ≤ c ∧ c ≤ 'F' then some (c.toNat - 'A'.toNat + 10)
  else none

/-- The decimal digits of a number. -/
def ofNat (n : Nat) : List Char := (Nat.repr n).toList

end TrackPlan.Text
