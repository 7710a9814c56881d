import ResultLint.Number.Binary64

/-!
# Reading a decimal

A document's decimal is read with a significand of 64 bits: digits that no longer fit are not
looked at, except that those before the point still count for the size.  The significand is then
scaled by one power of ten.  Both the power and the result are rounded, so the last bit of a long
decimal may differ from the nearest number.
-/

namespace ResultLint

namespace Decimal

/-- Takes digits into a 64-bit significand, up to the first that does not fit; also the number of
digits left over. -/
def absorb (significand : Nat) : List Nat → Nat × Nat
  | [] => (significand, 0)
  | d :: rest =>
    if significand * 10 + d < Nat.pow 2 64 then absorb (significand * 10 + d) rest
    else (significand, rest.length + 1)

/-- The power of ten as a number. -/
def tenPower (n : Nat) : Binary64 := .ofNat (Nat.pow 10 n)

/-- `x * 10 ^ -n`; a power beyond `10 ^ 308` is divided off in steps, at most `fuel` of them. -/
def scaleDown : Nat → Binary64 → Nat → Binary64
  | 0, x, _ => x
  | fuel + 1, x, n =>
    if n ≤ 308 then x.div (tenPower n)
    else if x.isZero then x
    else scaleDown fuel (x.div (tenPower 308)) (n - 308)

/-- `significand * 10 ^ power` for a significand of 64 bits, which two steps of `10 ^ 308` bring to
zero; infinity when it is too large. -/
def approximate (significand : Nat) (power : Int) : Binary64 :=
  if power < 0 then scaleDown 4 (.ofNat significand) power.natAbs
  else if significand = 0 then .zero
  else if 308 < power then .infinity
  else (Binary64.ofNat significand).mul (tenPower power.toNat)

/-- The value of digits before the point, digits after it, and a written power of ten. -/
def value (whole fraction : List Nat) (power : Int) : Binary64 :=
  let (s, dropped) := absorb 0 whole
  let (t, unread) := absorb s fraction
  approximate t (dropped - (fraction.length - unread : Nat) + power)

end Decimal

end ResultLint
