import StepGraph.Number.Decimal

/-!
# Binary floating-point numbers

The non-negative finite values of a format are numbered by size, from zero on. The values with the
numbers `0, 1, …, 2 ^ precision` are one unit `2 ^ -scale` apart, and the spacing doubles with
every further `2 ^ (precision - 1)` numbers. The numbering goes on past the format's largest value,
so that rounding is one formula and overflow is a comparison with `limit`.

* `Format.units` is the size of a value, counted in units.
* `Format.nearest` is the number of the value nearest to a fraction; a tie goes to the even number.

A 64-bit number is finite, infinite or not a number. A finite one has a sign and a magnitude; the
magnitude is its place among the non-negative finite values in the order of size, so the type holds
finite values only and each of them once per sign.

Products and quotients are those of the exact values, rounded to nearest.
-/

namespace StepGraph

/-! ## Formats -/

/-- A binary floating-point format. -/
structure Format where
  /-- The number of binary digits of a value. -/
  precision : Nat
  /-- The smallest positive value is `2 ^ -scale`. -/
  scale : Nat
  /-- The number of the first value that is too large. -/
  limit : Nat

namespace Format

/-- The usual 64-bit format. -/
def binary64 : Format := ⟨53, 1074, 2047 <<< 52⟩

/-- The usual 32-bit format. -/
def binary32 : Format := ⟨24, 149, 255 <<< 23⟩

/-- How many numbered values lie between two doublings of the spacing. -/
def half (f : Format) : Nat := 1 <<< (f.precision - 1)

/-- The size of the value with the given number, in units. -/
def units (f : Format) (number : Nat) : Nat :=
  let e := number / f.half - 1
  (number - e * f.half) <<< e

/-- `a / b` rounded to a whole number; a tie goes to the even one. -/
def roundHalfEven (a b : Nat) : Nat :=
  let q := a / b
  let r := a % b
  if b < 2 * r ∨ (2 * r = b ∧ q % 2 = 1) then q + 1 else q

/-- The number of the value nearest to `num / den`; a tie goes to the even number. -/
def nearest (f : Format) (num den : Nat) : Nat :=
  let n := num <<< f.scale
  let e := (n / den).log2 + 1 - f.precision
  e * f.half + roundHalfEven n (den <<< e)

end Format

/-! ## 64-bit numbers -/

/-- A non-negative finite value, by its place in the order of size. -/
structure Magnitude where
  number : Nat
  finite : number < Format.binary64.limit := by decide
  deriving DecidableEq, Repr

/-- A finite 64-bit floating-point number. -/
structure Finite64 where
  negative : Bool
  magnitude : Magnitude
  deriving DecidableEq, Repr

/-- A 64-bit floating-point number. -/
inductive Binary64 where
  | finite (value : Finite64)
  | infinite (negative : Bool)
  | nan
  deriving DecidableEq, Repr

namespace Magnitude

/-- The size in units of `2 ^ -1074`. -/
def units (m : Magnitude) : Nat := Format.binary64.units m.number

/-- The value nearest to `num / den`, if it is finite. -/
def ofRatio? (num den : Nat) : Option Magnitude :=
  let number := Format.binary64.nearest num den
  if h : number < Format.binary64.limit then some ⟨number, h⟩ else none

/-- Zero. -/
def zero : Magnitude := ⟨0, by decide⟩

/-- The units in one. -/
def one : Nat := 1 <<< Format.binary64.scale

/-- The product, if it is finite. -/
def mul? (a b : Magnitude) : Option Magnitude := ofRatio? (a.units * b.units) (one * one)

/-- The quotient, if it is finite. -/
def div? (a b : Magnitude) : Option Magnitude := ofRatio? a.units b.units

/-- The value is a whole number. -/
def isWhole (m : Magnitude) : Bool := m.units % one == 0

/-- The whole part of the value. -/
def whole (m : Magnitude) : Nat := m.units / one

end Magnitude

namespace Finite64

/-- Zero without a sign. -/
def zero : Finite64 := ⟨false, .zero⟩

/-- The two zeros are equal numbers. -/
def sameValue (a b : Finite64) : Bool :=
  a == b || (a.magnitude.number == 0 && b.magnitude.number == 0)

end Finite64

namespace Binary64

/-- The number with the given sign nearest to `num / den`. -/
def ofRatio (negative : Bool) (num den : Nat) : Binary64 :=
  match Magnitude.ofRatio? num den with
  | some m => finite ⟨negative, m⟩
  | none => infinite negative

/-- The number nearest to a decimal. -/
def ofDecimal (negative : Bool) (d : Decimal) : Binary64 :=
  ofRatio negative d.numerator d.denominator

/-- The 32-bit number nearest to a decimal, widened. -/
def ofDecimal32 (negative : Bool) (d : Decimal) : Binary64 :=
  let f := Format.binary32
  let number := f.nearest d.numerator d.denominator
  if number < f.limit then ofRatio negative (f.units number) (1 <<< f.scale)
  else infinite negative

end Binary64
end StepGraph
