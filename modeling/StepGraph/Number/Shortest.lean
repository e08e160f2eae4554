import StepGraph.Number.Binary64
import StepGraph.Number.Decimal

/-!
# The shortest decimal of a number

Of the decimals that round to a given number the shortest is the one with the fewest digits, and
among those the one nearest to the number. The search tries one digit, two digits and so on up to
seventeen, which always suffice, and looks only at the two decimals on either side of the number.
All of it is exact arithmetic on whole numbers.
-/

namespace StepGraph

/-- Which of two equally near decimals is taken. -/
inductive Tie where
  /-- The one with an even last digit. -/
  | even
  /-- The larger one. -/
  | up
  deriving DecidableEq, Repr

namespace Magnitude

/-- The point half way to the next smaller number, in half units. -/
def lowerEnd (m : Magnitude) : Nat :=
  Format.binary64.units (m.number - 1) + m.units

/-- The point half way to the next larger number, in half units. -/
def upperEnd (m : Magnitude) : Nat :=
  m.units + Format.binary64.units (m.number + 1)

/-- The ends of the interval round to the number themselves. -/
def endsCount (m : Magnitude) : Bool := m.number % 2 == 0

/-- The fraction of the half units `h` and `10 ^ p`, as numerator and denominator. -/
def scaled (h : Nat) (p : Int) : Nat × Nat :=
  (h * Decimal.tenTo (-p).toNat, 2 * one * Decimal.tenTo p.toNat)

/-- The decimal `c * 10 ^ p` rounds to the number. -/
def accepts (m : Magnitude) (c : Nat) (p : Int) : Bool :=
  let (low, den) := scaled m.lowerEnd p
  let (high, _) := scaled m.upperEnd p
  if m.endsCount then low ≤ c * den && c * den ≤ high else low < c * den && c * den < high

/-- Of the two multiples of `10 ^ p` around the number the nearer one. -/
def nearerMultiple (tie : Tie) (m : Magnitude) (p : Int) : Nat :=
  let (num, den) := scaled (2 * m.units) p
  let c := num / den
  let r := 2 * (num % den)
  if r < den then c
  else if den < r then c + 1
  else match tie with
    | .even => if c % 2 = 0 then c else c + 1
    | .up => c + 1

/-- The multiple of `10 ^ p` next to the number that rounds to it, if one does. -/
def hit? (tie : Tie) (m : Magnitude) (p : Int) : Option Nat :=
  let (num, den) := scaled (2 * m.units) p
  let c := num / den
  if m.accepts c p && m.accepts (c + 1) p then some (m.nearerMultiple tie p)
  else if m.accepts c p then some c
  else if m.accepts (c + 1) p then some (c + 1)
  else none

/-- The first hit on the grids `10 ^ p`, `10 ^ (p - 1)` and so on, or the nearest decimal of the
last grid. -/
def firstHit (tie : Tie) (m : Magnitude) : Nat → Int → Decimal
  | 0, p => ⟨m.nearerMultiple tie p, p⟩
  | n + 1, p =>
    match m.hit? tie p with
    | some c => ⟨c, p⟩
    | none => firstHit tie m n (p - 1)

/-- The exponent of the first digit of a positive number. -/
def leadingExponent (m : Magnitude) : Int :=
  let digits := Decimal.digitChars (m.units * Decimal.tenTo 400 / one)
  (digits.length : Int) - 401

/-- The shortest decimal that rounds to the number. -/
def shortest (tie : Tie) (m : Magnitude) : Decimal :=
  if m.number = 0 then ⟨0, 0⟩ else (m.firstHit tie 16 m.leadingExponent).normalize

end Magnitude

namespace Finite64

/-- A sign in front of the digits of a negative number. -/
def withSign (x : Finite64) (cs : List Char) : List Char :=
  if x.negative then '-' :: cs else cs

/-- The text of a number without an exponent: all digits of a whole number, else the fewest digits
that round to it. -/
def plain (x : Finite64) : String :=
  String.ofList <| x.withSign <|
    if x.magnitude.isWhole then Decimal.digitChars x.magnitude.whole ++ ['.', '0']
    else (x.magnitude.shortest .up).positional

end Finite64

/-- The text of a number without an exponent. -/
def Binary64.plain : Binary64 → String
  | .finite x => x.plain
  | .infinite negative => if negative then "-inf" else "inf"
  | .nan => "NaN"

end StepGraph
