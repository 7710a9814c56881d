import ResultLint.Number.Binary64

/-!
# Shortest decimals

A number is written with the fewest digits that read back as it.  The decimals that read back form
an interval around the number; the coarsest power of ten with a multiple in that interval gives the
fewest digits, and of the multiples there the one nearest to the number is taken.
-/

namespace ResultLint

/-- Which of two decimals equally near to a number is written. -/
inductive Tie where
  | up
  | even
deriving DecidableEq, Repr

/-- The decimal `digits * 10 ^ power`. -/
structure Decimal where
  digits : Nat
  power : Int
deriving DecidableEq, Repr

namespace Binary64

/-- The ends of the interval that rounds to `x` and, between them, `x` itself, in units of
`2 ^ (x.scale - 2)`.  Below a power of two the gap is half as wide. -/
def interval (x : Binary64) : Nat × Nat × Nat :=
  let m := x.significand
  let below := if x.fraction.val = 0 ∧ 1 < x.exponent.val then 1 else 2
  (4 * m - below, 4 * m, 4 * m + 2)

/-- The multiple of `10 ^ power` nearest to `x` among those that read back as `x`. -/
def multipleAt? (tie : Tie) (x : Binary64) (power : Int) : Option Nat :=
  let s := x.scale - 2
  let unit := Nat.pow 2 s.toNat * Nat.pow 10 (-power).toNat
  let step := Nat.pow 2 (-s).toNat * Nat.pow 10 power.toNat
  let (lo, v, hi) := x.interval
  let closed := x.fraction.val % 2 == 0
  let inside (c : Nat) : Bool :=
    if closed then lo * unit ≤ c * step ∧ c * step ≤ hi * unit
    else lo * unit < c * step ∧ c * step < hi * unit
  let q := v * unit / step
  let r := v * unit % step
  let upper := step < 2 * r ∨ (2 * r = step ∧ (tie = .up ∨ q % 2 = 1))
  match inside q && q != 0, inside (q + 1) with
  | true, true => some (if upper then q + 1 else q)
  | true, false => some q
  | false, true => some (q + 1)
  | false, false => none

/-- The first hit among the powers `power`, `power - 1`, …; at most `n` are tried. -/
def searchShortest (tie : Tie) (x : Binary64) : Nat → Int → Decimal
  | 0, power => ⟨0, power⟩
  | n + 1, power =>
    match x.multipleAt? tie power with
    | some c => ⟨c, power⟩
    | none => searchShortest tie x n (power - 1)

/-- The decimal with the fewest digits that reads back as the magnitude of a finite nonzero
number.  The powers of ten from `10 ^ 308` down to `10 ^ -324` have a hit. -/
def shortest (tie : Tie) (x : Binary64) : Decimal := searchShortest tie x 634 309

end Binary64

end ResultLint
