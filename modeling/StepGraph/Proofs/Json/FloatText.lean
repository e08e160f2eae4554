import StepGraph.Proofs.Json.RoundTrip
import StepGraph.Proofs.Text

/-!
# The text of a float is a numeral

Whatever float is written, its text is a numeral of the grammar: digits without a leading zero, then
a point with digits behind it, an exponent, or both (`gives_read_jsonChars`). So it is never taken
for an integer, though what is read from it need not be the same float.
-/

namespace StepGraph

namespace Decimal

/-- Zero has the exponent zero once zeros have been taken off its end. -/
theorem exponent_normalize {d : Decimal} (h : d.normalize.digits = 0) :
    d.normalize.exponent = 0 := by
  fun_induction normalize d with
  | case1 => rfl
  | case2 d _ _ ih => exact ih h
  | case3 d hd => exact absurd h hd

end Decimal

theorem Magnitude.exponent_shortest {tie : Tie} {m : Magnitude}
    (h : (m.shortest tie).digits = 0) : (m.shortest tie).exponent = 0 := by
  unfold shortest at h ⊢
  split at h
  · rename_i hm
    rw [if_pos hm]
  · rename_i hm
    rw [if_neg hm]
    exact Decimal.exponent_normalize h

namespace Json

open Decimal (digitChars)

namespace Numeral

variable {whole fraction digits rest cs : List Char} {negative : Bool} {n : Numeral}

/-- The numeral has a point or an exponent. -/
def IsFloat (n : Numeral) : Prop := n.fraction ≠ [] ∨ n.exponent ≠ none

/-- A run of digits. -/
structure Digits (digits : List Char) : Prop where
  ne_nil : digits ≠ []
  isDigit : ∀ c ∈ digits, c.isDigit = true

theorem digits_digitChars (n : Nat) : Digits (digitChars n) where
  ne_nil := Nat.toDigits_ne_nil
  isDigit _ := isDigit_of_mem_digitChars

theorem Digits.append (h : Digits digits) {more : List Char}
    (hmore : ∀ c ∈ more, c.isDigit = true) : Digits (digits ++ more) where
  ne_nil := List.append_ne_nil_of_left_ne_nil h.ne_nil more
  isDigit := List.forall_mem_append.mpr ⟨h.isDigit, hmore⟩

theorem isDigit_of_mem_zeros {n : Nat} : ∀ c ∈ List.replicate n '0', c.isDigit = true := by
  intro c hc
  rw [List.eq_of_mem_replicate hc]
  rfl

theorem Digits.readDigits (h : Digits digits) (hrest : ∀ c ∈ rest.head?, c.isDigit = false) :
    readDigits (digits ++ rest) = .ok (digits, rest) := by
  unfold Numeral.readDigits
  rw [Text.takeWhile_append h.isDigit hrest, Text.dropWhile_append h.isDigit hrest]
  exact if_neg (by simpa using h.ne_nil)

theorem Digits.readDigits_end (h : Digits digits) :
    Numeral.readDigits digits = .ok (digits, []) := by
  have hread : Numeral.readDigits (digits ++ []) = .ok (digits, []) := h.readDigits nofun
  rwa [List.append_nil] at hread

/-- Digits without a leading zero are read up to a point or an exponent. -/
theorem Digits.readWhole (h : Digits whole) (hzero : ∀ c tail, whole ≠ '0' :: c :: tail)
    (hrest : ∀ c ∈ rest.head?, c.isDigit = false) :
    readWhole (whole ++ rest) = .ok (whole, rest) :=
  readWhole_eq_ok.mpr ⟨h.readDigits hrest, hzero⟩

theorem Digits.readExponent (h : Digits digits) {sign : Char} (hsign : sign = '-' ∨ sign = '+') :
    ∃ e, readExponent ('e' :: sign :: digits) = .ok (some e, []) := by
  rcases hsign with rfl | rfl <;>
    · rw [Numeral.readExponent, if_pos (.inl rfl)]
      simp [takeSign, h.readDigits_end]

theorem readParts_of_parts {w f e : List Char} {exponent : Option Int}
    (hwhole : readWhole cs = .ok (w, f)) (hfraction : readFraction f = .ok (fraction, e))
    (hexponent : readExponent e = .ok (exponent, [])) :
    readParts negative cs = .ok (⟨negative, w, fraction, exponent⟩, []) :=
  bind_eq_ok.mpr ⟨_, hwhole, bind_eq_ok.mpr ⟨_, hfraction, bind_eq_ok.mpr ⟨_, hexponent, rfl⟩⟩⟩

/-- A point with digits around it. -/
theorem readParts_point (hw : Digits whole) (hzero : ∀ c tail, whole ≠ '0' :: c :: tail)
    (hf : Digits fraction) :
    readParts negative (whole ++ '.' :: fraction) = .ok (⟨negative, whole, fraction, none⟩, []) := by
  have hfraction : readFraction ('.' :: fraction) = .ok (fraction, []) := hf.readDigits_end
  refine readParts_of_parts (hw.readWhole hzero ?_) hfraction rfl
  rintro _ ⟨⟩
  rfl

/-- The digits of a number other than zero start with no zero. -/
theorem digitChars_ne_zero_cons {n : Nat} (hn : n ≠ 0) (tail : List Char) :
    digitChars n ≠ '0' :: tail :=
  fun h => hn (eq_zero_of_digitChars h)

/-- Positional notation is a numeral with a point. -/
theorem readParts_positional {d : Decimal} (h : d.digits = 0 → d.exponent = 0) :
    ∃ n, readParts negative d.positional = .ok (n, []) ∧ n.IsFloat := by
  have hds := digits_digitChars d.digits
  unfold Decimal.positional
  dsimp only
  split
  · -- a whole number: only zero itself starts with a zero, and nothing is appended to it
    have hwhole : Digits (digitChars d.digits ++ List.replicate d.exponent.toNat '0') :=
      hds.append isDigit_of_mem_zeros
    have hzero : ∀ c tail,
        digitChars d.digits ++ List.replicate d.exponent.toNat '0' ≠ '0' :: c :: tail := by
      intro c tail hcons
      by_cases hd : d.digits = 0
      · rw [h hd, hd] at hcons
        cases hcons
      · obtain ⟨c', tail', hc'⟩ := List.exists_cons_of_ne_nil hds.ne_nil
        rw [hc', List.cons_append] at hcons
        obtain ⟨rfl, -⟩ := List.cons.inj hcons
        exact digitChars_ne_zero_cons hd tail' hc'
    have hfraction : Digits ['0'] := ⟨nofun, List.forall_mem_singleton.mpr rfl⟩
    exact ⟨_, readParts_point hwhole hzero hfraction, .inl nofun⟩
  split
  · rename_i hexponent hpoint
    have hd : d.digits ≠ 0 := fun hd => hexponent (Int.le_of_eq (h hd).symm)
    have hlength : d.point.toNat < (digitChars d.digits).length := by
      unfold Decimal.point at hpoint ⊢
      omega
    have hwhole : Digits ((digitChars d.digits).take d.point.toNat) := by
      refine ⟨?_, fun c hc => hds.isDigit c (List.mem_of_mem_take hc)⟩
      rw [Ne, List.take_eq_nil_iff, not_or]
      exact ⟨by omega, hds.ne_nil⟩
    have hzero : ∀ c tail, (digitChars d.digits).take d.point.toNat ≠ '0' :: c :: tail := by
      intro c tail hcons
      have hsplit := List.take_append_drop d.point.toNat (digitChars d.digits)
      rw [hcons] at hsplit
      exact digitChars_ne_zero_cons hd _ hsplit.symm
    have hfraction : Digits ((digitChars d.digits).drop d.point.toNat) := by
      refine ⟨?_, fun c hc => hds.isDigit c (List.mem_of_mem_drop hc)⟩
      rw [Ne, List.drop_eq_nil_iff]
      omega
    exact ⟨_, readParts_point hwhole hzero hfraction, .inl hfraction.ne_nil⟩
  · have hwhole : Digits ['0'] := ⟨nofun, List.forall_mem_singleton.mpr rfl⟩
    have hfraction : Digits (List.replicate (-d.point).toNat '0' ++ digitChars d.digits) := by
      refine ⟨List.append_ne_nil_of_right_ne_nil _ hds.ne_nil, ?_⟩
      exact List.forall_mem_append.mpr ⟨isDigit_of_mem_zeros, hds.isDigit⟩
    exact ⟨_, readParts_point hwhole nofun hfraction, .inl hfraction.ne_nil⟩

/-- Scientific notation is a numeral with an exponent. -/
theorem readParts_scientific (d : Decimal) :
    ∃ n, readParts negative d.scientific = .ok (n, []) ∧ n.IsFloat := by
  have hds := digits_digitChars d.digits
  have hsign : (if d.point - 1 < 0 then '-' else '+') = '-' ∨
      (if d.point - 1 < 0 then '-' else '+') = '+' := by
    split <;> simp
  obtain ⟨e, he⟩ := (digits_digitChars (d.point - 1).natAbs).readExponent hsign
  unfold Decimal.scientific
  dsimp only
  split
  · rename_i hlength
    have hzero : ∀ c tail, digitChars d.digits ≠ '0' :: c :: tail := by
      intro c tail hcons
      rw [hcons] at hlength
      simp at hlength
    refine ⟨_, readParts_of_parts (hds.readWhole hzero ?_) rfl he, .inr nofun⟩
    rintro _ ⟨⟩
    rfl
  · rename_i hlength
    have hwhole : Digits ((digitChars d.digits).take 1) := by
      refine ⟨?_, fun c hc => hds.isDigit c (List.mem_of_mem_take hc)⟩
      rw [Ne, List.take_eq_nil_iff, not_or]
      exact ⟨Nat.one_ne_zero, hds.ne_nil⟩
    have hzero : ∀ c tail, (digitChars d.digits).take 1 ≠ '0' :: c :: tail := by
      intro c tail hcons
      have hlength := congrArg List.length hcons
      simp only [List.length_take, List.length_cons] at hlength
      omega
    have hfraction : Digits ((digitChars d.digits).drop 1) := by
      refine ⟨?_, fun c hc => hds.isDigit c (List.mem_of_mem_drop hc)⟩
      rw [Ne, List.drop_eq_nil_iff]
      omega
    rw [List.append_assoc, List.cons_append]
    refine ⟨_, readParts_of_parts (hwhole.readWhole hzero ?_) (hfraction.readDigits ?_) he,
      .inr nofun⟩
    all_goals
      rintro _ ⟨⟩
      rfl

theorem gives_read_of_readParts (h : readParts false cs = .ok (n, rest)) :
    Gives (Numeral.read cs) n rest := by
  cases cs with
  | nil => cases h
  | cons c cs =>
    refine gives_read ?_ h
    rintro rfl
    cases h

theorem value_of_isFloat (h : n.IsFloat) {x : Number} (hx : n.value = .ok x) :
    ∃ y, x = .float y := by
  unfold Numeral.value at hx
  dsimp only at hx
  rw [if_neg] at hx
  · obtain ⟨y, -, rfl⟩ := map_eq_ok.mp hx
    exact ⟨y, rfl⟩
  · rintro ⟨hfraction, hexponent, -⟩
    rcases h with h | h
    · exact h (List.isEmpty_iff.mp hfraction)
    · exact h (Option.isNone_iff_eq_none.mp hexponent)

end Numeral

/-- The text of a float is a numeral with a point or an exponent. -/
theorem gives_read_jsonChars (x : Finite64) :
    ∃ n, Gives (Numeral.read x.jsonChars) n [] ∧ n.IsFloat := by
  unfold Finite64.jsonChars Finite64.withSign
  dsimp only
  have hparts (negative : Bool) (d : Decimal) (hd : d.digits = 0 → d.exponent = 0) :
      ∃ n, Numeral.readParts negative (if -5 < d.point ∧ d.point ≤ 16 then d.positional
        else d.scientific) = .ok (n, []) ∧ n.IsFloat := by
    split
    · exact Numeral.readParts_positional hd
    · exact Numeral.readParts_scientific d
  cases x.negative with
  | true =>
    obtain ⟨n, hread, hn⟩ := hparts true _ Magnitude.exponent_shortest
    exact ⟨n, Numeral.gives_read_negative hread, hn⟩
  | false =>
    obtain ⟨n, hread, hn⟩ := hparts false _ Magnitude.exponent_shortest
    exact ⟨n, Numeral.gives_read_of_readParts hread, hn⟩

end Json
end StepGraph
