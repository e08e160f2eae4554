/-!
# References

A reference stands for a value that will exist once a step graph runs. It is identified by a path
of fields and projections from a root: the parameters, the result of a step, or the element and
the position of a running iteration.

An accessor never changes the path it starts from, it only extends it.
-/

namespace StepGraph

/-- A value that the remote engine finds under `path`. -/
structure Reference where
  /-- Fields after dots, projections as `[*]`. -/
  path : String
  deriving DecidableEq, Repr, Inhabited

/-- One way to reach into a value. -/
inductive Accessor where
  /-- The field `key`, whatever characters it has. -/
  | field (key : String)
  /-- The elements of a list, one by one. -/
  | each
  /-- The elements if `key` is `*`, else the field `key`. -/
  | index (key : String)
  /-- The pieces between the dots, in order. Empty pieces are passed over. -/
  | fieldPath (dotted : String)
  deriving DecidableEq, Repr

namespace Reference

/-- The key that stands for every element of a list. -/
def wildcard : String := "*"

/-- The parameters of a chain. -/
def params : Reference := ⟨"params"⟩

/-- The output of the step `name`. -/
def stepOutput (name : String) : Reference := ⟨"steps." ++ name ++ ".output"⟩

/-- The list of results of the iterated step `name`, one per element. -/
def stepResults (name : String) : Reference := ⟨"steps." ++ name ++ ".results"⟩

/-- The current element of an iteration. -/
def foreachItem : Reference := ⟨"foreach.item"⟩

/-- The position of the current element of an iteration. -/
def foreachIndex : Reference := ⟨"foreach.index"⟩

/-- The field `key` of a value. -/
def field (r : Reference) (key : String) : Reference := ⟨r.path ++ "." ++ key⟩

/-- Every element of a list. -/
def each (r : Reference) : Reference := ⟨r.path ++ "[" ++ wildcard ++ "]"⟩

/-- Every element for the key `*`, else a field. -/
def index (r : Reference) (key : String) : Reference :=
  if key = wildcard then r.each else r.field key

/-- Follows the non-empty pieces of `dotted` one after the other. -/
def fieldPath (r : Reference) (dotted : String) : Reference :=
  ((dotted.toList.splitOn '.').filter (!·.isEmpty)).foldl
    (fun r piece => r.index (String.ofList piece)) r

/-- Takes one accessor. -/
def access (r : Reference) : Accessor → Reference
  | .field key => r.field key
  | .each => r.each
  | .index key => r.index key
  | .fieldPath dotted => r.fieldPath dotted

/-- Takes accessors in order. -/
def follow (r : Reference) (accessors : List Accessor) : Reference :=
  accessors.foldl access r

/-- References are ordered by the characters of their paths. -/
def le (a b : Reference) : Bool := decide (a.path ≤ b.path)

/-- Drops every reference that equals the one before it. -/
def dropRepeats : List Reference → List Reference
  | a :: b :: rest => if a = b then dropRepeats (b :: rest) else a :: dropRepeats (b :: rest)
  | rest => rest

/-- The references in ascending order, each once. -/
def sortDistinct (refs : List Reference) : List Reference := dropRepeats (refs.mergeSort le)

end Reference
end StepGraph
