/-!
# Blank characters and trimming

A character is blank if it has the Unicode property `White_Space`. Text is handled as a list of
characters, so that what trimming keeps can be read off the list.

* `trim_eq_self`: trimming keeps a text that neither starts nor ends with a blank.
* `trim_blank`: nothing is left of a text of blanks.
-/

namespace StepGraph
namespace Text

/-- The characters with the Unicode property `White_Space`. -/
def isBlank (c : Char) : Bool :=
  (9 ≤ c.toNat && c.toNat ≤ 13) || c.toNat == 0x20 || c.toNat == 0x85 || c.toNat == 0xA0 ||
    c.toNat == 0x1680 || (0x2000 ≤ c.toNat && c.toNat ≤ 0x200A) || c.toNat == 0x2028 ||
    c.toNat == 0x2029 || c.toNat == 0x202F || c.toNat == 0x205F || c.toNat == 0x3000

/-- Drops the elements at the end that satisfy `p`. -/
def dropRightWhile (p : Char → Bool) (cs : List Char) : List Char :=
  (cs.reverse.dropWhile p).reverse

/-- Drops the characters at both ends that satisfy `p`. -/
def trimWhere (p : Char → Bool) (cs : List Char) : List Char :=
  dropRightWhile p (cs.dropWhile p)

/-- Drops the blanks at both ends. -/
def trim (cs : List Char) : List Char :=
  trimWhere isBlank cs

theorem dropWhile_eq_self {p : Char → Bool} {cs : List Char}
    (h : ∀ c, cs.head? = some c → p c = false) : cs.dropWhile p = cs := by
  cases cs with
  | nil => rfl
  | cons c cs => simp [h c rfl]

theorem dropRightWhile_eq_self {p : Char → Bool} {cs : List Char}
    (h : ∀ c, cs.getLast? = some c → p c = false) : dropRightWhile p cs = cs := by
  unfold dropRightWhile
  rw [dropWhile_eq_self (by simpa using h), List.reverse_reverse]

/-- Trimming keeps a text that neither starts nor ends with a blank. -/
theorem trim_eq_self {cs : List Char} (hl : ∀ c, cs.head? = some c → isBlank c = false)
    (hr : ∀ c, cs.getLast? = some c → isBlank c = false) : trim cs = cs := by
  unfold trim trimWhere
  rw [dropWhile_eq_self hl, dropRightWhile_eq_self hr]

/-- Nothing is left of a text of blanks. -/
theorem trim_blank {cs : List Char} (h : ∀ c ∈ cs, isBlank c = true) : trim cs = [] := by
  have : cs.dropWhile isBlank = [] := by
    induction cs with
    | nil => rfl
    | cons c cs ih =>
      rw [List.dropWhile_cons_of_pos (h c (by simp)), ih fun d hd => h d (by simp [hd])]
  simp [trim, trimWhere, this, dropRightWhile]

end Text
end StepGraph
