import StepGraph.Reference.Basic

/-!
# The root of a reference

The start of a path says which value it reaches into. A root is the whole path or is followed by
a dot or a bracket: `params.q` is rooted in the parameters and `paramsx` is not.
-/

namespace StepGraph

/-- What a path starts from. -/
inductive Root where
  | params
  | stepOutput
  | stepResults
  | foreachItem
  | foreachIndex
  /-- None of the above. -/
  | other
  deriving DecidableEq, Repr

namespace Root

/-- The text that names a root. -/
def text : Root → String
  | params => "params"
  | stepOutput => "steps.<name>.output"
  | stepResults => "steps.<name>.results"
  | foreachItem => "foreach.item"
  | foreachIndex => "foreach.index"
  | other => "other"

/-- The value only exists while an iteration runs. -/
def isIterationScoped : Root → Bool
  | foreachItem | foreachIndex => true
  | _ => false

/-- A path goes on after a field with a dot or a bracket. -/
def isSeparator (c : Char) : Bool := c == '.' || c == '['

/-- `path` is `root`, or `root` and a separator and more. -/
def startsAt (root path : List Char) : Bool :=
  match root.isPrefixOf? path with
  | some [] => true
  | some (c :: _) => isSeparator c
  | none => false

/-- The part of `path` after `steps.`. -/
def afterSteps? (path : List Char) : Option (List Char) :=
  "steps.".toList.isPrefixOf? path

/-- The root of what follows `steps.`: the name of the step ends at the first dot. -/
def ofStepPath (rest : List Char) : Root :=
  let name := rest.takeWhile (· != '.')
  let tail := (rest.dropWhile (· != '.')).drop 1
  if name.isEmpty then other
  else if startsAt "output".toList tail then stepOutput
  else if startsAt "results".toList tail then stepResults
  else other

/-- The root of a path. -/
def ofPath (path : List Char) : Root :=
  if startsAt "params".toList path then params
  else if startsAt "foreach.item".toList path then foreachItem
  else if startsAt "foreach.index".toList path then foreachIndex
  else match afterSteps? path with
    | some rest => ofStepPath rest
    | none => other

end Root

namespace Reference

/-- What the reference starts from. -/
def root (r : Reference) : Root := Root.ofPath r.path.toList

/-- The step name at the start of a path, up to the first separator. -/
def stepNameOfPath (path : List Char) : Option (List Char) :=
  match Root.afterSteps? path with
  | none => none
  | some rest =>
    let name := rest.takeWhile (!Root.isSeparator ·)
    if name.isEmpty then none else some name

/-- The step whose result the reference reaches into. -/
def stepName (r : Reference) : Option String :=
  (stepNameOfPath r.path.toList).map String.ofList

end Reference
end StepGraph
