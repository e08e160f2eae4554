/-!
# Decimal notations

A decimal is `digits * 10 ^ exponent`. Positional notation writes a point and no exponent,
scientific notation one digit before the point and an exponent with its sign.
-/

namespace StepGraph

/-- The number `digits * 10 ^ exponent`. -/
structure Decimal where
  digits : Nat
  exponent : Int
  deriving DecidableEq, Repr

namespace Decimal

/-- The power of ten with the exponent `n`. -/
def tenTo (n : Nat) : Nat := Nat.pow 10 n

/-- The numerator of the decimal as a fraction. -/
def numerator (d : Decimal) : Nat := d.digits * tenTo d.exponent.toNat

/-- The denominator of the decimal as a fraction. -/
def denominator (d : Decimal) : Nat := tenTo (-d.exponent).toNat

/-- The digits of a whole number. -/
def digitChars (n : Nat) : List Char := Nat.toDigits 10 n

/-- The place of the point, counted from the front of the digits. -/
def point (d : Decimal) : Int := (digitChars d.digits).length + d.exponent

/-- Without an exponent, and with at least one digit after the point. -/
def positional (d : Decimal) : List Char :=
  let ds := digitChars d.digits
  if 0 ≤ d.exponent then ds ++ List.replicate d.exponent.toNat '0' ++ ['.', '0']
  else if 0 < d.point then ds.take d.point.toNat ++ '.' :: ds.drop d.point.toNat
  else '0' :: '.' :: (List.replicate (-d.point).toNat '0' ++ ds)

/-- With an exponent that has a sign and no more digits than it needs. -/
def scientific (d : Decimal) : List Char :=
  let ds := digitChars d.digits
  let e := d.point - 1
  let mantissa := if ds.length ≤ 1 then ds else ds.take 1 ++ '.' :: ds.drop 1
  mantissa ++ 'e' :: (if e < 0 then '-' else '+') :: digitChars e.natAbs

/-- Takes zeros off the end of the digits. -/
def normalize (d : Decimal) : Decimal :=
  if d.digits = 0 then ⟨0, 0⟩
  else if d.digits % 10 = 0 then normalize ⟨d.digits / 10, d.exponent + 1⟩
  else d
termination_by d.digits
decreasing_by omega

end Decimal
end StepGraph
