import StepGraph.Chain.Basic

/-!
# Conditions and iterations

A condition and a source are active for the steps that a body adds between `enter…` and `leave…`.
Neither can be entered while one of its kind is active. When a body fails, what it has added goes:
`Chain.rollback` takes the steps, the names, the schema and the output back to what they were on
entry. What the setters have set stays.

An iteration must leave exactly one step. Its result is that of the step, one per element.
-/

namespace StepGraph

/-- The references that a body of an iteration may use. -/
structure IterationScope where
  item : Reference := .foreachItem
  index : Reference := .foreachIndex
  deriving DecidableEq, Repr

namespace Chain

/-- Takes away what has been added since `entry`. -/
def rollback (c entry : Chain) : Chain where
  chainId := c.chainId
  title := c.title
  description := c.description
  publiclyTriggerable := c.publiclyTriggerable
  isPublic := c.isPublic
  params := if entry.params.isSome then c.params else none
  steps := c.steps.take entry.steps.length
  output := if entry.output.isSome then c.output else none
  namer := entry.namer
  scope := c.scope

/-- Makes a condition active. -/
def enterCondition (c : Chain) (condition : Condition) : Except DefinitionError Chain :=
  match c.scope.condition with
  | some _ => .error .conditionAlreadyActive
  | none => .ok { c with scope := { c.scope with condition := some condition } }

/-- No condition is active. -/
def clearCondition (c : Chain) : Chain := { c with scope := { c.scope with condition := none } }

/-- Ends the body of a condition that was entered from `entry`. -/
def leaveCondition {α : Type} (c entry : Chain) (result : Except DefinitionError α) :
    Except DefinitionError α × Chain :=
  match result with
  | .ok a => (.ok a, c.clearCondition)
  | .error e => (.error e, c.clearCondition.rollback entry)

/-- Makes a source active. -/
def enterIteration (c : Chain) (source : Source) : Except DefinitionError Chain :=
  match c.scope.source with
  | some _ => .error .iterationAlreadyActive
  | none => .ok { c with scope := { c.scope with source := some source } }

/-- No source is active. -/
def clearIteration (c : Chain) : Chain := { c with scope := { c.scope with source := none } }

/-- Ends the body of an iteration that was entered from `entry`. -/
def leaveIteration {α : Type} (c entry : Chain) (result : Except DefinitionError α) :
    Except DefinitionError Reference × Chain :=
  let c := c.clearIteration
  match result with
  | .error e => (.error e, c.rollback entry)
  | .ok _ =>
    let added := c.steps.length - entry.steps.length
    if added = 1 then
      match c.steps.getLast? with
      | some step => (.ok (.stepResults step.name), c)
      | none => (.error (.iterationStepCount 0), c)
    else (.error (.iterationStepCount added), c.rollback entry)

end Chain
end StepGraph
