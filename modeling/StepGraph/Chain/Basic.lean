import StepGraph.Chain.Step
import StepGraph.Schema.Basic

/-!
# Chains

A chain is a list of steps under construction, with the schema of its parameters and its output.
Steps are appended one after the other. A step takes the condition and the source that are active
when it is added. Parameters and output are set once.

An operation gives its outcome and the chain after it. It changes the chain only when nothing speaks
against it any more, so one that is refused leaves the chain as it was (`Call.Effect`). Every error
is a mistake in the calls that define a chain, and is raised by the call that breaks the rule.
-/

namespace StepGraph

/-- Why a chain cannot be defined in this way. -/
inductive DefinitionError where
  | paramsAlreadyDefined
  | outputAlreadyDefined
  | conditionAlreadyActive
  | iterationAlreadyActive
  /-- The body of an iteration has left another number of steps than one. -/
  | iterationStepCount (added : Nat)
  | duplicateStepName (name : String)
  /-- A step that is not iterated refers to an element or a position. -/
  | iterationReferenceOutsideIteration (step path : String)
  | emptyCode
  deriving DecidableEq, Repr

/-- The wording of an error. -/
def DefinitionError.message : DefinitionError → String
  | paramsAlreadyDefined =>
    "Params already defined. If you want to add more params, add them in the initial " ++
      "define_params call"
  | outputAlreadyDefined =>
    "Output already defined. If you want to add more output, add them in the initial " ++
      "define_output call"
  | conditionAlreadyActive => "Nested conditions are not supported: a condition is already active"
  | iterationAlreadyActive => "Nested iterations are not supported: an iteration is already active"
  | iterationStepCount added =>
    "An iteration body must add exactly one step, but it added " ++ toString added
  | duplicateStepName name =>
    "Step with name '" ++ name ++ "' already exists. Provide a different explicit name"
  | iterationReferenceOutsideIteration step path =>
    "Step '" ++ step ++ "' uses '" ++ path ++ "', which only exists inside with_iteration"
  | emptyCode => "Embedded code requires a non-empty function source"

/-- What a chain gives in the end. -/
inductive Output where
  | mapping (members : List (String × Param))
  | ref (reference : Reference)
  | null

/-- What is active for the steps that are added: at most one condition and one source. -/
structure Scope where
  condition : Option Condition := none
  source : Option Source := none

/-- A chain under construction. -/
structure Chain where
  chainId : Option String := none
  title : String := ""
  description : String := ""
  /-- Anyone who knows the id may run the chain. -/
  publiclyTriggerable : Bool := false
  /-- The chain is listed for everyone. -/
  isPublic : Bool := false
  params : Option (Dict Schema) := none
  steps : List Step := []
  output : Option Output := none
  namer : Namer := {}
  scope : Scope := {}

namespace Chain

/-- The id of a chain that was never given one. -/
def localChainId : String := "LOCAL_DEV_CHAIN"

variable (c : Chain)

/-- The id under which the engine knows the chain. -/
def studioId : String := c.chainId.getD localChainId

/-- The first step of the given name. -/
def step? (name : String) : Option Step := c.steps.find? (·.name == name)

/-- Sets the schema of the parameters and gives the reference to them. -/
def defineParams (schema : Dict Schema) : Except DefinitionError Reference × Chain :=
  match c.params with
  | some _ => (.error .paramsAlreadyDefined, c)
  | none => (.ok .params, { c with params := some schema })

/-- Sets the output. -/
def defineOutput (output : Output) : Except DefinitionError Unit × Chain :=
  match c.output with
  | some _ => (.error .outputAlreadyDefined, c)
  | none => (.ok (), { c with output := some output })

/-- The step with what is active now. -/
def stepFor (name transformation : String) (params : List (String × Param)) : Step :=
  ⟨name, transformation, params, c.scope.condition, c.scope.source⟩

/-- Appends a step under a name that is free, and gives the reference to its result. -/
def pushStep (name transformation : String) (params : List (String × Param)) :
    Except DefinitionError Reference × Chain :=
  let step := c.stepFor name transformation params
  match step.stray? with
  | some r => (.error (.iterationReferenceOutsideIteration name r.path), c)
  | none => (.ok step.result,
      { c with steps := c.steps ++ [step], namer := c.namer.record name transformation })

/-- Appends a step named after its transformation. -/
def addStep (transformation : String) (params : List (String × Param)) :
    Except DefinitionError Reference × Chain :=
  c.pushStep (c.namer.nextName transformation) transformation params

/-- Appends a step under the given name. -/
def addNamedStep (name transformation : String) (params : List (String × Param)) :
    Except DefinitionError Reference × Chain :=
  if c.namer.isTaken name then (.error (.duplicateStepName name), c)
  else c.pushStep name transformation params

end Chain
end StepGraph
