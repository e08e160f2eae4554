import StepGraph.Json.Reader

/-!
# Reading JSON numbers

An integer that fits into 64 bits, signed or unsigned, is read as it is; `-0` and every other number
become floats. A float is made from a significand of 64 bits and a power of ten:

* the significand takes digits as long as they fit; further digits before the point only raise the
  exponent, and further digits after it are left out;
* the significand, the power of ten and their product or quotient are rounded one after the other.
  Powers beyond 10³⁰⁸ are divided out in parts; a number that rounds to infinity is a fault.
-/

namespace StepGraph
namespace Json

/-- The value of a decimal digit. -/
def digitValue (c : Char) : Nat := c.toNat - '0'.toNat

/-- A significand is less than this number. -/
def significandLimit : Nat := 0x10000000000000000

/-- Appends digits to a significand as long as they fit. The second number counts the digits that
are left. -/
def absorb (significand : Nat) : List Char → Nat × Nat
  | [] => (significand, 0)
  | c :: cs =>
    let next := significand * 10 + digitValue c
    if next < significandLimit then absorb next cs else (significand, cs.length + 1)

/-- The value of a run of digits. -/
def digitsValue (cs : List Char) : Nat := cs.foldl (fun n c => n * 10 + digitValue c) 0

/-- The largest power of ten that a float holds has this exponent. -/
def greatestPower : Nat := 308

/-- The float nearest to `10 ^ k`, if it is finite. -/
def powerOfTen? (k : Nat) : Option Magnitude := Magnitude.ofRatio? (Decimal.tenTo k) 1

/-- `m * 10 ^ k`, if it is finite. -/
def scaleUp? (m : Magnitude) (k : Nat) : Option Magnitude :=
  if k ≤ greatestPower then (powerOfTen? k).bind (m.mul? ·)
  else if m.number = 0 then some m
  else none

/-- `m / 10 ^ k`, by the greatest power first. -/
def scaleDown? (m : Magnitude) (k : Nat) : Option Magnitude :=
  if k ≤ greatestPower then (powerOfTen? k).bind (m.div? ·)
  else if m.number = 0 then some m
  else ((powerOfTen? greatestPower).bind (m.div? ·)).bind (scaleDown? · (k - greatestPower))
termination_by k
decreasing_by
  rename_i h _
  simp only [greatestPower] at h ⊢
  omega

/-- The float `significand * 10 ^ exponent`, with a sign. -/
def floatOf (negative : Bool) (significand : Nat) (exponent : Int) : Except Fault Finite64 :=
  let magnitude := (Magnitude.ofRatio? significand 1).bind fun m =>
    if 0 ≤ exponent then scaleUp? m exponent.toNat else scaleDown? m (-exponent).toNat
  match magnitude with
  | some m => .ok ⟨negative, m⟩
  | none => .error .numberTooLarge

/-- The parts of a number. -/
structure Numeral where
  negative : Bool
  /-- The digits before the point. -/
  whole : List Char
  /-- The digits after the point; there are none without a point. -/
  fraction : List Char
  exponent : Option Int
  deriving DecidableEq, Repr

namespace Numeral

/-- The number that the parts make up. -/
def value (n : Numeral) : Except Fault Number :=
  let (significand, left) := absorb 0 n.whole
  let signed : Int := if n.negative then -significand else significand
  if n.fraction.isEmpty ∧ n.exponent.isNone ∧ left = 0 then
    if h : (-0x8000000000000000 ≤ signed ∧ signed < 0x10000000000000000) ∧
        ¬(n.negative = true ∧ significand = 0) then
      .ok (.integer signed h.1)
    else (floatOf n.negative significand 0).map .float
  else
    let (significand, unused) := absorb significand n.fraction
    let exponent := left - (n.fraction.length - unused) + n.exponent.getD 0
    (floatOf n.negative significand exponent).map .float

/-- Reads a run of digits, which must not be empty. -/
def readDigits (cs : List Char) : Except Fault (List Char × List Char) :=
  let digits := cs.takeWhile Char.isDigit
  let rest := cs.dropWhile Char.isDigit
  if digits.isEmpty then .error (if rest.isEmpty then .endOfText .value else .badNumber)
  else .ok (digits, rest)

/-- Reads the digits before the point. A leading zero stands alone. -/
def readWhole (cs : List Char) : Except Fault (List Char × List Char) :=
  match readDigits cs with
  | .ok ('0' :: _ :: _, _) => .error .badNumber
  | r => r

/-- Reads a point and its digits, if there is a point. -/
def readFraction (cs : List Char) : Except Fault (List Char × List Char) :=
  match cs with
  | '.' :: rest => readDigits rest
  | rest => .ok ([], rest)

/-- Takes a sign; without one a number is not negative. -/
def takeSign (cs : List Char) : Bool × List Char :=
  match cs with
  | '+' :: rest => (false, rest)
  | '-' :: rest => (true, rest)
  | rest => (false, rest)

/-- Reads an exponent, if there is one. -/
def readExponent (cs : List Char) : Except Fault (Option Int × List Char) :=
  match cs with
  | [] => .ok (none, [])
  | c :: rest =>
    if c = 'e' ∨ c = 'E' then
      let (negative, rest) := takeSign rest
      match readDigits rest with
      | .error e => .error e
      | .ok (digits, rest) =>
        let n : Int := digitsValue digits
        .ok (some (if negative then -n else n), rest)
    else .ok (none, c :: rest)

/-- Reads the parts of a number after its sign. -/
def readParts (negative : Bool) (cs : List Char) : Except Fault (Numeral × List Char) := do
  let (whole, cs) ← readWhole cs
  let (fraction, cs) ← readFraction cs
  let (exponent, cs) ← readExponent cs
  return (⟨negative, whole, fraction, exponent⟩, cs)

theorem length_lt_of_readDigits {cs digits rest : List Char}
    (h : readDigits cs = .ok (digits, rest)) : rest.length < cs.length := by
  unfold readDigits at h
  dsimp only at h
  split at h
  · cases h
  · rename_i hd
    cases h
    have := congrArg List.length (List.takeWhile_append_dropWhile (p := Char.isDigit) (l := cs))
    rw [List.length_append] at this
    have : 0 < (cs.takeWhile Char.isDigit).length :=
      List.length_pos_iff.mpr fun h => hd (by rw [h]; rfl)
    omega

theorem length_lt_of_readWhole {cs digits rest : List Char}
    (h : readWhole cs = .ok (digits, rest)) : rest.length < cs.length := by
  unfold readWhole at h
  split at h
  · cases h
  · exact length_lt_of_readDigits h

theorem length_le_of_readFraction {cs digits rest : List Char}
    (h : readFraction cs = .ok (digits, rest)) : rest.length ≤ cs.length := by
  unfold readFraction at h
  split at h
  · exact Nat.le_succ_of_le (Nat.le_of_lt (length_lt_of_readDigits h))
  · cases h
    exact Nat.le_refl _

theorem length_takeSign_le (cs : List Char) : (takeSign cs).2.length ≤ cs.length := by
  unfold takeSign
  split
  · exact Nat.le_succ _
  · exact Nat.le_succ _
  · exact Nat.le_refl _

theorem length_le_of_readExponent {cs rest : List Char} {e : Option Int}
    (h : readExponent cs = .ok (e, rest)) : rest.length ≤ cs.length := by
  unfold readExponent at h
  split at h
  · cases h
    exact Nat.le_refl _
  · rename_i c cs
    split at h
    · dsimp only at h
      split at h
      · cases h
      · rename_i hd
        cases h
        have := length_lt_of_readDigits hd
        have := length_takeSign_le cs
        simp only [List.length_cons]
        omega
    · cases h
      exact Nat.le_refl _

theorem length_lt_of_readParts {negative : Bool} {cs rest : List Char} {n : Numeral}
    (h : readParts negative cs = .ok (n, rest)) : rest.length < cs.length := by
  unfold readParts at h
  cases hw : readWhole cs with
  | error e => rw [hw] at h; cases h
  | ok w =>
    rw [hw] at h
    cases hf : readFraction w.2 with
    | error e => simp only [bind, Except.bind, hf] at h; cases h
    | ok f =>
      cases he : readExponent f.2 with
      | error e => simp only [bind, Except.bind, hf, he] at h; cases h
      | ok e =>
        simp only [bind, Except.bind, hf, he] at h
        cases h
        have := length_lt_of_readWhole hw
        have := length_le_of_readFraction hf
        have := length_le_of_readExponent he
        omega

/-- Reads the parts of a number. -/
def read : Reader Numeral
  | [] => .error (.endOfText .value)
  | c :: rest =>
    if c = '-' then
      match h : readParts true rest with
      | .error e => .error e
      | .ok (n, rest) => .ok ⟨n, rest, Nat.lt_succ_of_lt (length_lt_of_readParts h)⟩
    else
      match h : readParts false (c :: rest) with
      | .error e => .error e
      | .ok (n, rest) => .ok ⟨n, rest, length_lt_of_readParts h⟩

end Numeral

/-- Reads a number. -/
def readNumber : Reader Number := fun cs =>
  match Numeral.read cs with
  | .error e => .error e
  | .ok p =>
    match p.value.value with
    | .error e => .error e
    | .ok x => .ok (p.map fun _ => x)

end Json
end StepGraph
