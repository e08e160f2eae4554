import StepGraph.Chain.Basic
import StepGraph.Graph.Basic
import StepGraph.Substitution

/-!
# Compiling a chain

Compiling puts a template in the place of every reference and keeps everything else. The work goes
step by step, in a step first through the parameters and then through the source, and then to the
output; the first number that is not finite stops it. Without an output the result of the last step
takes its place.
-/

namespace StepGraph

/-- The wire form of a condition. -/
def Condition.toJson : Condition → Json
  | literal value => .bool value
  | null => .null
  | ref reference => .string reference.template

/-- The wire form of a source at `location`. -/
def Source.substitute (location : String) : Source → Except SerializationError Json
  | items values => (Param.substituteItems location 0 values).map .array
  | ref reference => .ok (.string reference.template)

/-- The wire form of a step at `location`. -/
def Step.compile (location : String) (s : Step) : Except SerializationError Graph.Step := do
  let params ← Param.substituteMembers (Param.memberLocation location "params") s.params
  let source ← match s.source with
    | none => pure none
    | some source => some <$> source.substitute (Param.memberLocation location "foreach")
  return ⟨s.name, s.transformation, params, s.condition.map Condition.toJson, source⟩

namespace Chain

/-- The place of the steps. -/
def stepsLocation : String := "transformations.steps"

/-- The place of the output. -/
def outputLocation : String := "transformations.output"

/-- The wire form of steps from position `index` on. -/
def compileSteps (index : Nat) : List Step → Except SerializationError (List Graph.Step)
  | [] => .ok []
  | s :: rest => do
    let step ← s.compile (Param.itemLocation stepsLocation index)
    let steps ← compileSteps (index + 1) rest
    return step :: steps

/-- The wire form of the output. -/
def compileOutput (c : Chain) : Except SerializationError Json :=
  match c.output with
  | some (.mapping members) => (Param.substituteMembers outputLocation members).map .object
  | some (.ref reference) => .ok (.string reference.template)
  | some .null => .ok .null
  | none =>
    match c.steps.getLast? with
    | some step => .ok (.string step.result.template)
    | none => .ok .null

/-- The wire form of the chain. -/
def compile (c : Chain) : Except SerializationError Graph := do
  let steps ← compileSteps 0 c.steps
  let output ← c.compileOutput
  return {
    studioId := c.studioId
    title := c.title
    description := c.description
    parameters := c.params.getD []
    steps := steps
    output := output
    publiclyTriggerable := c.publiclyTriggerable
    isPublic := c.isPublic }

end Chain
end StepGraph
