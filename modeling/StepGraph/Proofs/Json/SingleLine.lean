import StepGraph.Proofs.Json.Numeral

/-!
# The compact text is a single line

Strings escape line feeds, numbers are digits and signs, and the compact layout puts nothing between
the tokens. So the compact text of a value has no line feed, whatever the strings and keys in it
hold (`noBreak_compact`).
-/

namespace StepGraph

/-! ## Numbers -/

namespace Decimal

theorem noBreak_digitChars (n : Nat) : '\n' ∉ digitChars n :=
  fun h => absurd (Json.isDigit_of_mem_digitChars h) (by decide)

theorem noBreak_positional (d : Decimal) : '\n' ∉ d.positional := by
  have htake (n : Nat) : '\n' ∉ (digitChars d.digits).take n :=
    fun h => noBreak_digitChars _ (List.mem_of_mem_take h)
  have hdrop (n : Nat) : '\n' ∉ (digitChars d.digits).drop n :=
    fun h => noBreak_digitChars _ (List.mem_of_mem_drop h)
  unfold positional
  dsimp only
  split
  · simp [noBreak_digitChars]
  split
  · simp [htake, hdrop]
  · simp [noBreak_digitChars]

theorem noBreak_scientific (d : Decimal) : '\n' ∉ d.scientific := by
  have hfirst : '\n' ∉ (digitChars d.digits).take 1 :=
    fun h => noBreak_digitChars _ (List.mem_of_mem_take h)
  have hothers : '\n' ∉ (digitChars d.digits).tail :=
    fun h => noBreak_digitChars _ (List.mem_of_mem_tail h)
  have hsign : '\n' ≠ if d.point - 1 < 0 then '-' else '+' := by split <;> decide
  unfold scientific
  dsimp only
  generalize (if d.point - 1 < 0 then '-' else '+') = sign at hsign ⊢
  split
  · simp [noBreak_digitChars, hsign]
  · simp [noBreak_digitChars, hsign, hfirst, hothers]

end Decimal

namespace Json

theorem noBreak_jsonChars (x : Finite64) : '\n' ∉ x.jsonChars := by
  unfold Finite64.jsonChars Finite64.withSign
  dsimp only
  split <;> split <;> simp [Decimal.noBreak_positional, Decimal.noBreak_scientific]

theorem noBreak_numberChars (x : Number) : '\n' ∉ numberChars x := by
  cases x with
  | float x => exact noBreak_jsonChars x
  | integer n h =>
    rw [numberChars, intChars]
    split <;> simp [Decimal.noBreak_digitChars]

/-! ## Strings -/

/-- A line feed is escaped, and no escape has one. -/
theorem noBreak_escape (c : Char) : '\n' ∉ escape c := by
  obtain h | h := escape_cases c
  · rw [h, List.mem_singleton]
    rintro rfl
    cases h
  · exact fun hc => absurd (h hc) (by decide)

theorem noBreak_quoteChars (cs : List Char) : '\n' ∉ quoteChars cs := by
  simp [quoteChars, noBreak_escape]

/-! ## Values -/

theorem noBreak_writeKey {key : String} {rest : List Char} (h : '\n' ∉ rest) :
    '\n' ∉ writeKey .compact key rest := by
  simp [writeKey, Layout.compact, noBreak_quoteChars, h]

theorem noBreak_cons {c : Char} {rest : List Char} (hc : c ≠ '\n') (h : '\n' ∉ rest) :
    '\n' ∉ c :: rest :=
  List.not_mem_cons_of_ne_of_not_mem (Ne.symm hc) h

mutual

/-- A value that is written in front of a text adds no line feed. -/
theorem noBreak_write {depth : Nat} {rest : List Char} (h : '\n' ∉ rest) :
    (j : Json) → '\n' ∉ j.write .compact depth rest
  | .null | .bool true | .bool false | .array [] | .object [] => by simp [write, h]
  | .number x => by simp [write, noBreak_numberChars, h]
  | .string s => by simp [write, noBreak_quoteChars, h]
  | .array (j :: js) => by
    have hend : '\n' ∉ ']' :: rest := noBreak_cons (by decide) h
    rw [write]
    exact noBreak_cons (by decide) (noBreak_write (noBreak_writeItems hend js) j)
  | .object ((k, j) :: ms) => by
    have hend : '\n' ∉ '\x7d' :: rest := noBreak_cons (by decide) h
    rw [write]
    exact noBreak_cons (by decide) <|
      noBreak_writeKey (noBreak_write (noBreak_writeMembers hend ms) j)

theorem noBreak_writeItems {depth : Nat} {rest : List Char} (h : '\n' ∉ rest) :
    (js : List Json) → '\n' ∉ writeItems .compact depth js rest
  | [] => by rwa [writeItems]
  | j :: js => by
    rw [writeItems]
    exact noBreak_cons (by decide) (noBreak_write (noBreak_writeItems h js) j)

theorem noBreak_writeMembers {depth : Nat} {rest : List Char} (h : '\n' ∉ rest) :
    (ms : List (String × Json)) → '\n' ∉ writeMembers .compact depth ms rest
  | [] => by rwa [writeMembers]
  | (k, j) :: ms => by
    rw [writeMembers]
    exact noBreak_cons (by decide) <|
      noBreak_writeKey (noBreak_write (noBreak_writeMembers h ms) j)

end

/-- The compact text of a value is a single line. -/
theorem noBreak_compact (j : Json) : '\n' ∉ j.compact.toList := by
  rw [compact, String.toList_ofList]
  exact noBreak_write List.not_mem_nil j

end Json
end StepGraph
