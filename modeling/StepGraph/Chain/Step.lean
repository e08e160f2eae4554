import StepGraph.Dict
import StepGraph.Param
import StepGraph.Reference.Root

/-!
# Steps of a chain

A step runs a transformation with parameters. It may depend on a condition, and it may run once per
element of a source; its result is then the list of results of the single runs.

A step that gets no name is called after its transformation. The first one has the bare name, the
`k`-th one the name with the suffix `_k`, or with the next larger suffix that is free. A name that
has been given stays as it is.
-/

namespace StepGraph

/-- What must hold for a step to run. -/
inductive Condition where
  | literal (value : Bool)
  | null
  | ref (reference : Reference)
  deriving DecidableEq, Repr

/-- The list that an iterated step runs over. -/
inductive Source where
  | items (values : List Param)
  | ref (reference : Reference)

/-- A step as it was added. -/
structure Step where
  name : String
  transformation : String
  params : List (String × Param)
  condition : Option Condition
  source : Option Source

namespace Condition

/-- The condition for a reader. -/
def display : Condition → String
  | literal value => if value then "true" else "false"
  | null => "null"
  | ref reference => reference.template

/-- The reference that the condition looks up. -/
def references : Condition → List Reference
  | ref reference => [reference]
  | _ => []

end Condition

namespace Source

/-- The source for a reader. -/
def display : Source → String
  | items values => Param.itemCount values
  | ref reference => reference.template

/-- The references in the source. -/
def references : Source → List Reference
  | items values => Param.itemReferences values
  | ref reference => [reference]

end Source

namespace Step

/-- The step runs once per element of a source. -/
def isIterated (s : Step) : Bool := s.source.isSome

/-- What the step gives: an output, or a list of results if it is iterated. -/
def result (s : Step) : Reference :=
  if s.isIterated then .stepResults s.name else .stepOutput s.name

/-- The references that must make sense where the step runs: those in the parameters, then that of
the condition. -/
def references (s : Step) : List Reference :=
  Param.memberReferences s.params ++ (s.condition.map Condition.references).getD []

/-- The first reference to an iteration in a step that is not iterated. -/
def stray? (s : Step) : Option Reference :=
  if s.isIterated then none else s.references.find? (·.root.isIterationScoped)

end Step

/-! ## Names -/

/-- What names have been given, and how many steps each transformation has. -/
structure Namer where
  taken : List String := []
  counts : Dict Nat := []
  deriving DecidableEq, Repr, Inhabited

namespace Namer

/-- The name with a suffix. -/
def suffixed (transformation : String) (k : Nat) : String := transformation ++ "_" ++ toString k

/-- The first of the suffixed names from `k` on that is not in `taken`. A name that is taken does
not come again, so it need not be kept. -/
def firstFree (taken : List String) (transformation : String) (k : Nat) : String :=
  if suffixed transformation k ∈ taken then
    firstFree (taken.erase (suffixed transformation k)) transformation (k + 1)
  else suffixed transformation k
termination_by taken.length
decreasing_by
  rename_i h
  rw [List.length_erase_of_mem h]
  have := List.length_pos_of_mem h
  omega

variable (n : Namer)

/-- The name has been given. -/
def isTaken (name : String) : Bool := n.taken.contains name

/-- How many steps the transformation has. -/
def count (transformation : String) : Nat := (Dict.get? n.counts transformation).getD 0

/-- The name for the next step of the transformation. -/
def nextName (transformation : String) : String :=
  if n.count transformation = 0 ∧ n.isTaken transformation = false then transformation
  else firstFree n.taken transformation (n.count transformation + 1)

/-- Takes note of a step. -/
def record (name transformation : String) : Namer where
  taken := n.taken.insert name
  counts := Dict.insert n.counts transformation (n.count transformation + 1)

end Namer

end StepGraph
