import ResultLint.Number.Shortest

/-!
# The two texts of a number

A number literal *type* is shown positionally, without exponent and without a fraction unless it
has one.  A number in a *document* always shows that it is not an integer: by a fraction, or by an
exponent where the positional form would be long.
-/

namespace ResultLint

namespace Decimal

/-- The digits of the number. -/
def text (d : Decimal) : String := Nat.repr d.digits

/-- Where the decimal point stands, counted from the first digit. -/
def point (d : Decimal) : Int := d.text.length + d.power

def zeros (n : Nat) : String := String.ofList (List.replicate n '0')

/-- The positional form; `whole` follows a number without fraction. -/
def positional (whole : String) (d : Decimal) : String :=
  let digits := d.text.toList
  if 0 ≤ d.power then d.text ++ zeros d.power.toNat ++ whole
  else if 0 < d.point then
    String.ofList (digits.take d.point.toNat) ++ "." ++ String.ofList (digits.drop d.point.toNat)
  else "0." ++ zeros (-d.point).toNat ++ d.text

/-- One digit before the point, and an exponent with its sign. -/
def scientific (d : Decimal) : String :=
  let digits := d.text.toList
  let rest := digits.drop 1
  let exponent := d.point - 1
  String.ofList (digits.take 1) ++ (if rest.isEmpty then "" else "." ++ String.ofList rest)
    ++ (if exponent < 0 then "e-" else "e+") ++ Nat.repr exponent.natAbs

end Decimal

namespace Binary64

def signText (x : Binary64) : String := if x.negative then "-" else ""

/-- The text of a number in a literal type. -/
def plainText (x : Binary64) : String :=
  if x.isNaN then "NaN"
  else if !x.isFinite then x.signText ++ "inf"
  else if x.isZero then x.signText ++ "0"
  else x.signText ++ (x.shortest .up).positional ""

/-- The text of a finite number in a document: positional from `10 ^ -5` up to `10 ^ 16`. -/
def documentText (x : Binary64) : String :=
  if x.isZero then x.signText ++ "0.0"
  else
    let d := x.shortest .even
    x.signText ++ if -5 < d.point ∧ d.point ≤ 16 then d.positional ".0" else d.scientific

end Binary64

end ResultLint
