import StepGraph.Json.Printer
import StepGraph.Reference.Root
import StepGraph.Text.Blank

/-!
# The segments of a path

A path is read as a list of fields and projections. A field stands after a dot, or in brackets
with optional quotes around it. `[*]` is a projection. Empty fields between dots are no segments.

Inline code reads a reference through an expression that gives `undefined` where a value on the
way is missing. The first field stands for itself, later ones follow `?.`: as they are if they
are identifiers, else as a JSON string in brackets. A projection maps the rest of the path over
the elements; at the end of the path it adds nothing.
-/

namespace StepGraph

/-- One step along a path. -/
inductive Segment where
  | field (name : String)
  /-- Every element of a list. -/
  | each
  deriving DecidableEq, Repr

namespace Segment

/-- The segment in a pair of brackets. -/
def ofBracket (key : List Char) : Segment :=
  if key = Reference.wildcard.toList then each
  else field (String.ofList (Text.trimWhere (· == '"') key))

/-- The segments of a path. A bracket that is not closed holds the rest of the path. -/
def split (path : List Char) : List Segment :=
  match path with
  | [] => []
  | '[' :: rest =>
    ofBracket (rest.takeWhile (· != ']')) :: split ((rest.dropWhile (· != ']')).drop 1)
  | '.' :: rest =>
    let name := rest.takeWhile (!Root.isSeparator ·)
    let after := rest.dropWhile (!Root.isSeparator ·)
    if name.isEmpty then split after else field (String.ofList name) :: split after
  | c :: rest =>
    field (String.ofList (c :: rest.takeWhile (!Root.isSeparator ·))) ::
      split (rest.dropWhile (!Root.isSeparator ·))
termination_by path.length
decreasing_by
  · have := (List.dropWhile_sublist (l := rest) (· != ']')).length_le
    simp only [List.length_drop, List.length_cons]
    omega
  · exact Nat.lt_succ_of_le (List.dropWhile_sublist _).length_le
  · exact Nat.lt_succ_of_le (List.dropWhile_sublist _).length_le
  · exact Nat.lt_succ_of_le (List.dropWhile_sublist _).length_le

end Segment

/-- The fields and projections of the path, in order. -/
def Reference.segments (r : Reference) : List Segment := Segment.split r.path.toList

/-! ## Expressions -/

namespace Reference

/-- A character that an identifier may start with. -/
def isIdentifierStart (c : Char) : Bool := c.isAlpha || c == '_' || c == '$'

/-- A character that an identifier may go on with. -/
def isIdentifierRest (c : Char) : Bool := c.isAlphanum || c == '_' || c == '$'

/-- The field can follow `?.` without brackets. Only ASCII letters and digits count. -/
def isIdentifier (name : String) : Bool :=
  name.toList.head?.any isIdentifierStart && name.toList.tail.all isIdentifierRest

/-- The variable that stands for an element inside a projection. -/
def itemVariable : String := "_$$item"

/-- Extends the expression `done` by segments. -/
def extendNullSafe (done : String) : List Segment → String
  | [] => done
  | .field name :: rest =>
    let next :=
      if done.isEmpty then name
      else if isIdentifier name then done ++ "?." ++ name
      else done ++ "?.[" ++ Json.quote name ++ "]"
    extendNullSafe next rest
  | [.each] => done
  | .each :: rest =>
    done ++ "?.map((" ++ itemVariable ++ ") => " ++ extendNullSafe itemVariable rest ++ ")"

/-- The expression that reads the reference. -/
def nullSafe (r : Reference) : String := extendNullSafe "" r.segments

end Reference

end StepGraph
