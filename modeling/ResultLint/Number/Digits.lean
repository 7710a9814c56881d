/-!
# Digits

The values of digits and of runs of them.
-/

namespace ResultLint

namespace Digits

/-- The value of a hexadecimal digit, of either case. -/
def hexValue? (c : Char) : Option Nat :=
  if c.isDigit then some (c.toNat - '0'.toNat)
  else if 'a' ≤ c ∧ c ≤ 'f' then some (c.toNat - 'a'.toNat + 10)
  else if 'A' ≤ c ∧ c ≤ 'F' then some (c.toNat - 'A'.toNat + 10)
  else none

/-- The value of a decimal digit. -/
def value (c : Char) : Nat := c.toNat - '0'.toNat

/-- The number with these digits, the first one leading. -/
def number (base : Nat) (ds : List Nat) : Nat := ds.foldl (fun n d => base * n + d) 0

def hexNumber? (cs : List Char) : Option Nat := (cs.mapM hexValue?).map (number 16)

end Digits

end ResultLint
