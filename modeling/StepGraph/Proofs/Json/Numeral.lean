import Mathlib.Data.List.TakeWhile
import StepGraph.Json.Printer
import StepGraph.Proofs.Json.Reader
import StepGraph.Proofs.Result

/-!
# Numbers read back

A number has no end of its own in a text: it is read as far as it goes. So the number read off the
front of a text is the same before anything that does not go on with a number (`NumberEnds`), and
what is left is this follow-up (`gives_readNumber_append`).

* `readsBack_integer`: the text of an integer within 64 bits is read as the integer.
* `Finite64.ReadsBack`: the text of a float is read as the float.
* `gives_number`: the text of a number inside a longer text.
-/

namespace StepGraph
namespace Json

/-- The text does not go on with a number. -/
def NumberEnds (rest : List Char) : Prop :=
  ∀ c tail, rest = c :: tail → c.isDigit = false ∧ c ≠ '.' ∧ c ≠ 'e' ∧ c ≠ 'E'

theorem numberEnds_nil : NumberEnds [] := nofun

theorem numberEnds_cons {c : Char} (tail : List Char)
    (h : c.isDigit = false ∧ c ≠ '.' ∧ c ≠ 'e' ∧ c ≠ 'E') : NumberEnds (c :: tail) := by
  rintro _ _ ⟨⟩
  exact h

theorem numberEnds_blank {blanks rest : List Char} (hb : Blank blanks) (h : NumberEnds rest) :
    NumberEnds (blanks ++ rest) := by
  cases blanks with
  | nil => exact h
  | cons c blanks =>
    refine numberEnds_cons _ ?_
    have hc := hb c (List.mem_cons_self ..)
    simp only [isSpace, Bool.or_eq_true, beq_iff_eq] at hc
    rcases hc with ((rfl | rfl) | rfl) | rfl <;> decide

/-! ## What follows a number does not change it -/

variable {cs rest left : List Char}

private theorem digits_append (cs : List Char) (hr : NumberEnds rest) :
    (cs ++ rest).takeWhile Char.isDigit = cs.takeWhile Char.isDigit ∧
      (cs ++ rest).dropWhile Char.isDigit = cs.dropWhile Char.isDigit ++ rest := by
  induction cs with
  | nil =>
    cases rest with
    | nil => exact ⟨rfl, rfl⟩
    | cons c tail =>
      have hc := (hr c tail rfl).1
      constructor <;> simp [hc]
  | cons c cs ih =>
    by_cases hc : c.isDigit
    · simp [hc, ih.1, ih.2]
    · simp [hc]

namespace Numeral

variable {digits : List Char}

theorem readDigits_append (hr : NumberEnds rest) (h : readDigits cs = .ok (digits, left)) :
    readDigits (cs ++ rest) = .ok (digits, left ++ rest) := by
  obtain ⟨htake, hdrop⟩ := digits_append cs hr
  unfold readDigits at h ⊢
  rw [htake, hdrop]
  dsimp only at h ⊢
  split at h
  · cases h
  · rename_i hdigits
    cases h
    rw [if_neg hdigits]

/-- The digits before a point have no leading zero. -/
theorem readWhole_eq_ok : readWhole cs = .ok (digits, left) ↔
    readDigits cs = .ok (digits, left) ∧ ∀ c tail, digits ≠ '0' :: c :: tail := by
  unfold readWhole
  split
  · rename_i h
    rw [h]
    constructor
    · exact nofun
    · rintro ⟨⟨⟩, hzero⟩
      exact absurd rfl (hzero _ _)
  · rename_i hzero
    refine ⟨fun h => ⟨h, ?_⟩, And.left⟩
    rintro c tail rfl
    exact hzero c tail left h

theorem readWhole_append (hr : NumberEnds rest) (h : readWhole cs = .ok (digits, left)) :
    readWhole (cs ++ rest) = .ok (digits, left ++ rest) := by
  obtain ⟨hdigits, hzero⟩ := readWhole_eq_ok.mp h
  exact readWhole_eq_ok.mpr ⟨readDigits_append hr hdigits, hzero⟩

theorem readFraction_append (hr : NumberEnds rest) (h : readFraction cs = .ok (digits, left)) :
    readFraction (cs ++ rest) = .ok (digits, left ++ rest) := by
  cases cs with
  | nil =>
    cases h
    show readFraction rest = .ok ([], rest)
    unfold readFraction
    split
    · exact absurd rfl (hr _ _ rfl).2.1
    · rfl
  | cons c cs =>
    by_cases hc : c = '.'
    · subst hc
      exact readDigits_append hr h
    · have hkeep (ds : List Char) : readFraction (c :: ds) = .ok ([], c :: ds) := by
        unfold readFraction
        split
        · rename_i heq
          cases heq
          exact absurd rfl hc
        · rfl
      rw [hkeep] at h
      cases h
      exact hkeep (cs ++ rest)

private theorem takeSign_append {c : Char} : takeSign (c :: cs ++ rest) =
    ((takeSign (c :: cs)).1, (takeSign (c :: cs)).2 ++ rest) := by
  by_cases hplus : c = '+'
  · subst hplus
    rfl
  · by_cases hminus : c = '-'
    · subst hminus
      rfl
    · have hkeep (ds : List Char) : takeSign (c :: ds) = (false, c :: ds) := by
        unfold takeSign
        split
        · rename_i heq
          cases heq
          exact absurd rfl hplus
        · rename_i heq
          cases heq
          exact absurd rfl hminus
        · rfl
      rw [List.cons_append, hkeep, hkeep]
      rfl

theorem readExponent_append (hr : NumberEnds rest) {e : Option Int}
    (h : readExponent cs = .ok (e, left)) :
    readExponent (cs ++ rest) = .ok (e, left ++ rest) := by
  cases cs with
  | nil =>
    cases h
    cases rest with
    | nil => rfl
    | cons c tail =>
      obtain ⟨-, -, he, hE⟩ := hr c tail rfl
      show readExponent (c :: tail) = _
      rw [readExponent, if_neg (by simp [he, hE])]
      rfl
  | cons c cs =>
    rw [List.cons_append]
    rw [readExponent] at h ⊢
    split at h
    · rename_i hc
      rw [if_pos hc]
      cases cs with
      | nil => cases h
      | cons d cs =>
        rw [takeSign_append]
        dsimp only at h ⊢
        split at h
        · cases h
        · rename_i hdigits
          rw [readDigits_append hr hdigits]
          cases h
          rfl
    · rename_i hc
      rw [if_neg hc]
      cases h
      rfl

theorem readParts_append (hr : NumberEnds rest) {negative : Bool} {n : Numeral}
    (h : readParts negative cs = .ok (n, left)) :
    readParts negative (cs ++ rest) = .ok (n, left ++ rest) := by
  obtain ⟨⟨whole, ds⟩, hwhole, h⟩ := bind_eq_ok.mp h
  obtain ⟨⟨fraction, es⟩, hfraction, h⟩ := bind_eq_ok.mp h
  obtain ⟨⟨exponent, fs⟩, hexponent, h⟩ := bind_eq_ok.mp h
  cases h
  refine bind_eq_ok.mpr ⟨_, readWhole_append hr hwhole, ?_⟩
  refine bind_eq_ok.mpr ⟨_, readFraction_append hr hfraction, ?_⟩
  exact bind_eq_ok.mpr ⟨_, readExponent_append hr hexponent, rfl⟩

/-- A minus stands in front of the parts of a negative number. -/
theorem gives_read_negative {n : Numeral} (h : readParts true cs = .ok (n, left)) :
    Gives (Numeral.read ('-' :: cs)) n left := by
  rw [Numeral.read, if_pos rfl]
  split
  · rename_i he
    rw [h] at he
    cases he
  · rename_i hok
    rw [h] at hok
    cases hok
    exact ⟨_, rfl⟩

theorem gives_read {c : Char} (hc : c ≠ '-') {n : Numeral}
    (h : readParts false (c :: cs) = .ok (n, left)) : Gives (Numeral.read (c :: cs)) n left := by
  rw [Numeral.read, if_neg hc]
  split
  · rename_i he
    rw [h] at he
    cases he
  · rename_i hok
    rw [h] at hok
    cases hok
    exact ⟨_, rfl⟩

theorem gives_read_append (hr : NumberEnds rest) {n : Numeral}
    (h : Gives (Numeral.read cs) n left) : Gives (Numeral.read (cs ++ rest)) n (left ++ rest) := by
  obtain ⟨_, h⟩ := h
  cases cs with
  | nil => cases h
  | cons c cs =>
    rw [List.cons_append]
    rw [Numeral.read] at h
    split at h
    · rename_i hc
      subst hc
      split at h
      · cases h
      · rename_i hparts
        cases h
        exact gives_read_negative (readParts_append hr hparts)
    · rename_i hc
      split at h
      · cases h
      · rename_i hparts
        cases h
        exact gives_read hc (readParts_append hr hparts)

end Numeral

theorem gives_readNumber_iff {x : Number} : Gives (readNumber cs) x left ↔
    ∃ n : Numeral, Gives (Numeral.read cs) n left ∧ n.value = .ok x := by
  unfold readNumber
  constructor
  · rintro ⟨_, h⟩
    split at h
    · cases h
    · rename_i p hp
      split at h
      · cases h
      · rename_i hx
        cases h
        exact ⟨p.value, gives_of_eq_ok hp, hx⟩
  · rintro ⟨n, ⟨_, hn⟩, hx⟩
    rw [hn]
    dsimp only
    rw [hx]
    exact ⟨_, rfl⟩

/-- A number is read alike before whatever does not go on with a number. -/
theorem gives_readNumber_append (hr : NumberEnds rest) {x : Number}
    (h : Gives (readNumber cs) x left) : Gives (readNumber (cs ++ rest)) x (left ++ rest) := by
  obtain ⟨n, hn, hx⟩ := gives_readNumber_iff.mp h
  exact gives_readNumber_iff.mpr ⟨n, Numeral.gives_read_append hr hn, hx⟩

/-! ## The text of an integer -/

open Decimal (digitChars)

theorem isDigit_of_mem_digitChars {n : Nat} {c : Char} (h : c ∈ digitChars n) :
    c.isDigit = true :=
  Nat.isDigit_of_mem_toDigits (by decide) (by decide) h

/-- Only zero starts with the digit zero. -/
theorem eq_zero_of_digitChars {n : Nat} {tail : List Char} (h : digitChars n = '0' :: tail) :
    n = 0 := by
  induction n using Nat.strongRecOn generalizing tail with
  | ind n ih =>
    unfold digitChars at h ih
    by_cases hn : n < 10
    · rw [Nat.toDigits_of_lt_base hn] at h
      have hvalue := Nat.toNat_digitChar_sub_48_of_lt_ten hn
      rw [(List.cons.inj h).1] at hvalue
      exact hvalue.symm
    · rw [Nat.toDigits_of_base_le (by decide) (by omega)] at h
      cases hd : Nat.toDigits 10 (n / 10) with
      | nil => exact absurd hd Nat.toDigits_ne_nil
      | cons c cs =>
        rw [hd, List.cons_append] at h
        obtain ⟨rfl, -⟩ := List.cons.inj h
        have := ih (n / 10) (by omega) hd
        omega

theorem readWhole_digitChars (n : Nat) :
    Numeral.readWhole (digitChars n) = .ok (digitChars n, []) := by
  have hall : ∀ c ∈ digitChars n, c.isDigit = true := fun _ => isDigit_of_mem_digitChars
  refine Numeral.readWhole_eq_ok.mpr ⟨?_, ?_⟩
  · unfold Numeral.readDigits
    rw [List.takeWhile_eq_self_iff.mpr hall, List.dropWhile_eq_nil_iff.mpr hall]
    exact if_neg (by simp [digitChars])
  · intro c tail h
    rw [eq_zero_of_digitChars h] at h
    cases h

/-- Digits are taken into the significand as long as their value fits. -/
theorem absorb_eq {significand : Nat} (h : Nat.ofDigitChars 10 cs significand < significandLimit) :
    absorb significand cs = (Nat.ofDigitChars 10 cs significand, 0) := by
  induction cs generalizing significand with
  | nil => rw [Nat.ofDigitChars_nil]; rfl
  | cons c cs ih =>
    have hnext : significand * 10 + digitValue c = 10 * significand + (c.toNat - '0'.toNat) := by
      rw [digitValue, Nat.mul_comm]
    rw [Nat.ofDigitChars_cons] at h ⊢
    have hle : significand * 10 + digitValue c < significandLimit := by
      rw [hnext]
      rw [Nat.ofDigitChars_eq_ofDigitChars_zero] at h
      have hpow : 0 < 10 ^ cs.length := Nat.pow_pos (by decide)
      exact Nat.lt_of_le_of_lt
        (Nat.le_trans (Nat.le_mul_of_pos_left _ hpow) (Nat.le_add_right _ _)) h
    rw [absorb, if_pos hle, hnext, ih h]

theorem absorb_digitChars {n : Nat} (h : n < significandLimit) :
    absorb 0 (digitChars n) = (n, 0) := by
  have hn : Nat.ofDigitChars 10 (digitChars n) 0 = n := Nat.ofDigitChars_ten_toDigits
  rw [absorb_eq (by rwa [hn]), hn]

/-- The numeral of an integer. -/
def integerNumeral (n : Int) : Numeral := ⟨decide (n < 0), digitChars n.natAbs, [], none⟩

theorem readParts_digitChars (negative : Bool) (n : Nat) :
    Numeral.readParts negative (digitChars n) = .ok (⟨negative, digitChars n, [], none⟩, []) := by
  unfold Numeral.readParts
  rw [readWhole_digitChars]
  rfl

theorem gives_read_intChars (n : Int) :
    Gives (Numeral.read (intChars n)) (integerNumeral n) [] := by
  unfold intChars integerNumeral
  by_cases hn : n < 0
  · rw [if_pos hn, decide_eq_true hn]
    exact Numeral.gives_read_negative (readParts_digitChars true _)
  · rw [if_neg hn, decide_eq_false hn]
    have hparts := readParts_digitChars false n.natAbs
    cases hd : digitChars n.natAbs with
    | nil => exact absurd hd Nat.toDigits_ne_nil
    | cons c cs =>
      have hc : c.isDigit = true := isDigit_of_mem_digitChars (hd ▸ List.mem_cons_self ..)
      rw [hd] at hparts
      refine Numeral.gives_read ?_ hparts
      rintro rfl
      exact absurd hc (by decide)

theorem value_integerNumeral {n : Int}
    (h : -0x8000000000000000 ≤ n ∧ n < 0x10000000000000000) :
    (integerNumeral n).value = .ok (.integer n h) := by
  have habsorb : absorb 0 (digitChars n.natAbs) = (n.natAbs, 0) :=
    absorb_digitChars (by rw [significandLimit]; omega)
  have hsigned : (if decide (n < 0) then -(n.natAbs : Int) else n.natAbs) = n := by
    by_cases hn : n < 0
    · simp only [hn, decide_true, if_true]
      omega
    · simp only [hn, decide_false, Bool.false_eq_true, if_false]
      omega
  have hzero : ¬(decide (n < 0) = true ∧ n.natAbs = 0) := by
    rw [decide_eq_true_eq]
    omega
  unfold Numeral.value integerNumeral
  simp only [habsorb, hsigned]
  rw [if_pos (by simp), dif_pos ⟨h, hzero⟩]

/-! ## The text of a number -/

theorem readsBack_integer {n : Int} (h : -0x8000000000000000 ≤ n ∧ n < 0x10000000000000000) :
    Gives (readNumber (numberChars (.integer n h))) (.integer n h) [] :=
  gives_readNumber_iff.mpr ⟨_, gives_read_intChars n, value_integerNumeral h⟩

end Json

namespace Finite64

/-- The text of the float is read as this float. -/
def ReadsBack (x : Finite64) : Prop :=
  Json.Gives (Json.readNumber x.jsonChars) (.float x) []

/-- One half. -/
def half : Finite64 := ⟨false, ⟨0x3FE0000000000000, by decide⟩⟩

theorem half_readsBack : half.ReadsBack := by
  have htext : half.jsonChars = ['0', '.', '5'] := by decide +kernel
  have hvalue : (⟨false, ['0'], ['5'], none⟩ : Json.Numeral).value = .ok (.float half) := by
    decide +kernel
  unfold ReadsBack
  rw [htext]
  exact Json.gives_readNumber_iff.mpr ⟨_, ⟨by decide, rfl⟩, hvalue⟩

end Finite64

namespace Json

/-- The floats in a number. -/
def numberFloats : Number → List Finite64
  | .integer _ _ => []
  | .float x => [x]

/-- The text of a number is read back in front of whatever does not go on with a number. -/
theorem gives_number {x : Number} (hx : ∀ f ∈ numberFloats x, f.ReadsBack) {rest : List Char}
    (hr : NumberEnds rest) : Gives (readNumber (numberChars x ++ rest)) x rest := by
  have h : Gives (readNumber (numberChars x)) x [] := by
    cases x with
    | integer n h => exact readsBack_integer h
    | float f => exact hx f (List.mem_singleton.mpr rfl)
  exact gives_readNumber_append hr h

end Json
end StepGraph
