/-!
# Double-precision numbers

A number literal is a double-precision number.  It is kept as the three fields of its binary
form, so that equality is decidable and every operation is exact arithmetic on `Nat` followed by one
rounding: `Binary64.ofRatio` is the nearest number to a quotient, a tie going to the even
significand.
-/

namespace ResultLint

/-- The number `2 ^ 52`: the leading bit of a significand of 53 bits, which the fields leave out. -/
abbrev hiddenBit : Nat := 4503599627370496

/-- A double-precision number by its fields.  The exponent `2047` marks the infinities and, with a
nonzero fraction, not-a-number. -/
structure Binary64 where
  negative : Bool
  exponent : Fin 2048
  fraction : Fin hiddenBit
deriving DecidableEq, Repr

namespace Binary64

def zero : Binary64 := ⟨false, 0, 0⟩

def infinity : Binary64 := ⟨false, 2047, 0⟩

def nan : Binary64 := ⟨false, 2047, ⟨hiddenBit / 2, by decide⟩⟩

instance : Inhabited Binary64 := ⟨zero⟩

def isFinite (x : Binary64) : Bool := x.exponent.val != 2047

def isNaN (x : Binary64) : Bool := x.exponent.val == 2047 && x.fraction.val != 0

def isZero (x : Binary64) : Bool := x.exponent.val == 0 && x.fraction.val == 0

def neg (x : Binary64) : Binary64 := { x with negative := !x.negative }

/-- The magnitude of a finite number is `significand * 2 ^ scale`. -/
def significand (x : Binary64) : Nat :=
  if x.exponent.val = 0 then x.fraction.val else hiddenBit + x.fraction.val

@[inherit_doc significand]
def scale (x : Binary64) : Int := max x.exponent.val 1 - 1075

/-- The magnitude of a finite number as a numerator over a positive denominator. -/
def ratio (x : Binary64) : Nat × Nat :=
  (x.significand * Nat.pow 2 x.scale.toNat, Nat.pow 2 (-x.scale).toNat)

/-- The quotient `num / den` rounded to an integer, a half going to the even neighbour. -/
def roundDiv (num den : Nat) : Nat :=
  let q := num / den
  let r := num % den
  if den < 2 * r ∨ (2 * r = den ∧ q % 2 = 1) then q + 1 else q

/-- The scale at which `num / den` has a significand of 53 bits, or the least one there is. -/
def scaleOfRatio (num den : Nat) : Int :=
  let s : Int := (num.log2 : Int) - den.log2 - 53
  let q := num * Nat.pow 2 (-s).toNat / (den * Nat.pow 2 s.toNat)
  max (if 2 * hiddenBit ≤ q then s + 1 else s) (-1074)

/-- The number with significand `m ≤ 2 ^ 53` at scale `s ≥ -1074`; infinity when it is too large. -/
def pack (m : Nat) (s : Int) : Binary64 :=
  let bits := (s + 1074).toNat * hiddenBit + m
  if h : bits / hiddenBit < 2047 then
    ⟨false, ⟨bits / hiddenBit, by omega⟩, ⟨bits % hiddenBit, Nat.mod_lt _ (by decide)⟩⟩
  else infinity

/-- The number nearest to `num / den`, for a positive denominator. -/
def ofRatio (num den : Nat) : Binary64 :=
  if num = 0 then zero
  else
    let s := scaleOfRatio num den
    pack (roundDiv (num * Nat.pow 2 (-s).toNat) (den * Nat.pow 2 s.toNat)) s

def ofNat (n : Nat) : Binary64 := ofRatio n 1

/-- The product of two finite magnitudes, rounded. -/
def mul (x y : Binary64) : Binary64 :=
  ofRatio (x.ratio.1 * y.ratio.1) (x.ratio.2 * y.ratio.2)

/-- The quotient of two finite magnitudes, rounded; the divisor is not zero. -/
def div (x y : Binary64) : Binary64 :=
  ofRatio (x.ratio.1 * y.ratio.2) (x.ratio.2 * y.ratio.1)

end Binary64

end ResultLint
