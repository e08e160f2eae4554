import StepGraph.Reference.Basic
import StepGraph.Text.Blank

/-!
# Templates

A template is a path between double braces. It is what a reference becomes in the text of a
compiled graph, and a text is scanned for the templates in it.

A template ends at the first pair of closing braces. Blanks around its path do not count, and a
template without a path is passed over.
-/

namespace StepGraph
namespace Template

/-- The brace that opens a template when doubled. -/
def openBrace : Char := '\x7b'

/-- The brace that closes a template when doubled. -/
def closeBrace : Char := '\x7d'

/-- The template of a path. -/
def ofPath (path : List Char) : List Char :=
  openBrace :: openBrace :: (path ++ [closeBrace, closeBrace])

/-- What follows the first pair of opening braces. -/
def afterOpen : List Char → Option (List Char)
  | a :: b :: cs => if a = openBrace ∧ b = openBrace then some cs else afterOpen (b :: cs)
  | _ => none

/-- Splits at the first pair of closing braces. `seen` holds what was passed, last first. -/
def splitCloseFrom (seen : List Char) : List Char → Option (List Char × List Char)
  | a :: b :: cs =>
    if a = closeBrace ∧ b = closeBrace then some (seen.reverse, cs)
    else splitCloseFrom (a :: seen) (b :: cs)
  | _ => none

/-- What stands before and after the first pair of closing braces. -/
def splitClose (cs : List Char) : Option (List Char × List Char) := splitCloseFrom [] cs

theorem afterOpen_length {cs rest : List Char} (h : afterOpen cs = some rest) :
    rest.length < cs.length := by
  induction cs using afterOpen.induct with
  | case1 a b cs hab =>
    rw [afterOpen, if_pos hab] at h
    cases h
    simp only [List.length_cons]
    omega
  | case2 a b cs hab ih =>
    rw [afterOpen, if_neg hab] at h
    have := ih h
    simp only [List.length_cons] at this ⊢
    omega
  | case3 cs hcs =>
    unfold afterOpen at h
    split at h
    · exact absurd rfl (hcs _ _ _)
    · cases h

theorem splitCloseFrom_length {seen cs inside rest : List Char}
    (h : splitCloseFrom seen cs = some (inside, rest)) : rest.length < cs.length := by
  induction seen, cs using splitCloseFrom.induct with
  | case1 seen a b cs hab =>
    rw [splitCloseFrom, if_pos hab] at h
    cases h
    simp only [List.length_cons]
    omega
  | case2 seen a b cs hab ih =>
    rw [splitCloseFrom, if_neg hab] at h
    have := ih h
    simp only [List.length_cons] at this ⊢
    omega
  | case3 seen cs hcs =>
    unfold splitCloseFrom at h
    split at h
    · exact absurd rfl (hcs _ _ _)
    · cases h

/-- The paths of the templates in a text, in order. -/
def pathsIn (cs : List Char) : List (List Char) :=
  match _opened : afterOpen cs with
  | none => []
  | some body =>
    match _closed : splitClose body with
    | none => []
    | some (inside, rest) =>
      let path := Text.trim inside
      if path.isEmpty then pathsIn rest else path :: pathsIn rest
termination_by cs.length
decreasing_by
  all_goals
    have := afterOpen_length _opened
    have := splitCloseFrom_length _closed
    omega

/-- The paths of the templates in `text`, in order. -/
def paths (text : String) : List String := (pathsIn text.toList).map String.ofList

end Template

/-- The template that stands for the reference. -/
def Reference.template (r : Reference) : String := String.ofList (Template.ofPath r.path.toList)

end StepGraph
