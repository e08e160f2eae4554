import StepGraph.Json.Printer
import StepGraph.Proofs.Json.Reader

/-!
# Strings read back

The text of a string is the concatenation of the texts of its characters, and reading goes
character by character as well (`stringTail_escape`). So no quote, backslash, control character or
other character of a string ends it early or comes back changed (`gives_string`).
-/

namespace StepGraph
namespace Json

variable {seen cs : List Char}

/-! ## One character -/

theorem hexValue?_hexDigit : ∀ n < 16, hexValue? (hexDigit n) = some n := by decide

/-- A letter behind a backslash stands for one character. -/
theorem stringTail_letter {c d : Char} (hu : c ≠ 'u') (h : ofEscapeLetter? c = some d) :
    stringTail seen ('\\' :: c :: cs) = stringTail (d :: seen) cs := by
  have hread : readEscape (c :: cs) = .ok ⟨d, cs, Nat.lt_add_one cs.length⟩ := by
    rw [readEscape, if_neg hu, h]
  rw [stringTail, if_neg (by decide), if_pos rfl, hread]

theorem fourHex?_hexDigit {n : Nat} (h : n < 0x100) :
    fourHex? '0' '0' (hexDigit (n / 16)) (hexDigit (n % 16)) = some n := by
  have hhigh := hexValue?_hexDigit (n / 16) (by omega)
  have hlow := hexValue?_hexDigit (n % 16) (by omega)
  have hzero : hexValue? '0' = some 0 := by decide
  simp only [fourHex?, hzero, hhigh, hlow, Option.bind_eq_bind, Option.bind_some, pure]
  exact congrArg some (by omega)

/-- Four digits behind a backslash and a `u` stand for the character of their value. -/
theorem stringTail_unit {n : Nat} (h : n < 0x20) :
    stringTail seen ('\\' :: 'u' :: '0' :: '0' :: hexDigit (n / 16) :: hexDigit (n % 16) :: cs) =
      stringTail (Char.ofNat n :: seen) cs := by
  have hunit : Gives (readUnit ('0' :: '0' :: hexDigit (n / 16) :: hexDigit (n % 16) :: cs))
      n cs := by
    rw [readUnit, fourHex?_hexDigit (by omega)]
    exact ⟨_, rfl⟩
  have hpoint : Gives (readCodePoint ('0' :: '0' :: hexDigit (n / 16) :: hexDigit (n % 16) :: cs))
      (Char.ofNat n) cs := by
    obtain ⟨_, hunit⟩ := hunit
    have htrailing : isTrailing n = false := by
      rw [isTrailing, Bool.and_eq_false_iff]
      exact .inl (decide_eq_false (by omega))
    have hleading : isLeading n = false := by
      rw [isLeading, Bool.and_eq_false_iff]
      exact .inl (decide_eq_false (by omega))
    rw [readCodePoint, hunit]
    dsimp only
    rw [htrailing, hleading]
    exact ⟨_, rfl⟩
  obtain ⟨_, hpoint⟩ := hpoint
  have hescape : Gives (readEscape
      ('u' :: '0' :: '0' :: hexDigit (n / 16) :: hexDigit (n % 16) :: cs)) (Char.ofNat n) cs := by
    rw [readEscape, if_pos rfl]
    exact gives_behind ⟨_, hpoint⟩
  obtain ⟨_, hescape⟩ := hescape
  rw [stringTail, if_neg (by decide), if_pos rfl, hescape]

/-- The text of a character is read as this character. -/
theorem stringTail_escape (seen : List Char) (c : Char) (cs : List Char) :
    stringTail seen (escape c ++ cs) = stringTail (c :: seen) cs := by
  unfold escape
  -- the quote, the backslash and the five control characters that have a letter
  iterate 7
    split
    · subst c
      exact stringTail_letter (by decide) (by decide)
  split
  · rename_i hcontrol
    have hunit : stringTail seen ('\\' :: 'u' :: '0' :: '0' :: hexDigit (c.toNat / 16) ::
        hexDigit (c.toNat % 16) :: cs) = stringTail (Char.ofNat c.toNat :: seen) cs :=
      stringTail_unit hcontrol
    rwa [Char.ofNat_toNat] at hunit
  · rename_i hquote hbackslash _ _ _ _ _ hcontrol
    show stringTail seen (c :: cs) = _
    rw [stringTail, if_neg hquote, if_neg hbackslash, if_neg hcontrol]

/-! ## Whole strings -/

theorem stringTail_flatMap_escape (seen cs rest : List Char) :
    stringTail seen (cs.flatMap escape ++ '"' :: rest) = .ok (seen.reverse ++ cs, rest) := by
  induction cs generalizing seen with
  | nil =>
    rw [List.flatMap_nil, List.nil_append, stringTail, if_pos rfl, List.append_nil]
  | cons c cs ih =>
    rw [List.flatMap_cons, List.append_assoc, stringTail_escape, ih, List.reverse_cons,
      List.append_assoc]
    rfl

/-- A string is read back up to its closing quote. -/
theorem gives_string (s : String) (rest : List Char) :
    Gives (stringAfterQuote (s.toList.flatMap escape ++ '"' :: rest)) s rest := by
  have h := stringTail_flatMap_escape [] s.toList rest
  rw [List.reverse_nil, List.nil_append] at h
  unfold stringAfterQuote
  split
  · rename_i herror
    rw [h] at herror
    cases herror
  · rename_i hok
    rw [h] at hok
    cases hok
    rw [String.ofList_toList]
    exact ⟨_, rfl⟩

theorem quoteChars_append (cs rest : List Char) :
    quoteChars cs ++ rest = '"' :: (cs.flatMap escape ++ '"' :: rest) := by
  rw [quoteChars, List.cons_append, List.append_assoc]
  rfl

/-- A string ends at its closing quote, whatever text it stands in. -/
theorem quoteChars_append_inj {cs cs' rest rest' : List Char}
    (h : quoteChars cs ++ rest = quoteChars cs' ++ rest') : cs = cs' ∧ rest = rest' := by
  rw [quoteChars_append, quoteChars_append] at h
  have hread := congrArg (stringTail []) (List.cons.inj h).2
  rw [stringTail_flatMap_escape, stringTail_flatMap_escape] at hread
  exact Prod.mk.inj (Except.ok.inj hread)

end Json
end StepGraph
