import StepGraph.Chain.Call
import StepGraph.Chain.Scope

/-!
# Building chains

A blueprint is what can be said of a chain before its steps: how it is called, who may run it and
which parameters it takes. A definition adds the steps, and may return the output. When it fails, or
returns an output besides one that it has set, there is no chain.

The operations on a chain are there in `do` notation. An operation that fails ends the block, and
leaves the chain as it was. Bodies of conditions and iterations are blocks of their own.
-/

namespace StepGraph

/-! ## Blueprints -/

/-- A chain before its steps. -/
structure Blueprint where
  chainId : Option String := none
  title : String := ""
  description : String := ""
  publiclyTriggerable : Bool := false
  isPublic : Bool := false
  params : Dict Schema := []

namespace Blueprint

variable (b : Blueprint)

/-- Declares a parameter, in its old place if it has one. -/
def withParam (name : String) (schema : Schema) : Blueprint :=
  { b with params := Dict.insert b.params name schema }

/-- Declares parameters in order. -/
def withParams (schema : Dict Schema) : Blueprint :=
  { b with params := Dict.insertAll b.params schema }

/-- The chain without steps. Its parameters are defined, even if there are none. -/
def build : Chain where
  chainId := b.chainId
  title := b.title
  description := b.description
  publiclyTriggerable := b.publiclyTriggerable
  isPublic := b.isPublic
  params := some b.params

end Blueprint

/-- Ends a definition that has led to the chain and has failed, or returned an output or none. -/
def Chain.conclude (c : Chain) : Except DefinitionError (Option Output) →
    Except DefinitionError Chain
  | .error e => .error e
  | .ok none => .ok c
  | .ok (some output) =>
    let (outcome, c) := c.defineOutput output
    outcome.map fun _ => c

/-! ## Blocks -/

/-- A computation that works on a chain and may fail. -/
abbrev Build (α : Type) := ExceptT DefinitionError (StateM Chain) α

namespace Build

/-- Appends a step named after its transformation. -/
def addStep (transformation : String) (params : List (String × Param)) : Build Reference :=
  (·.addStep transformation params)

/-- Appends a step under the given name. -/
def addNamedStep (name transformation : String) (params : List (String × Param)) :
    Build Reference :=
  (·.addNamedStep name transformation params)

/-- Appends a step that calls a function. -/
def embedCode (inputs : List (String × Reference)) (source : String) : Build Reference :=
  (·.embedCode inputs source)

/-- Runs `body` between `enter` and `leave`. A body that fails does not end the block: what
follows is up to `leave`. -/
def within {α β : Type} (enter : Chain → Except DefinitionError Chain)
    (leave : Chain → Chain → Except DefinitionError α → Except DefinitionError β × Chain)
    (body : Build α) : Build β := fun entry =>
  match enter entry with
  | .error e => (.error e, entry)
  | .ok inner =>
    let (result, c) := body.run inner
    leave c entry result

/-- The steps of the body depend on a condition. -/
def withCondition {α : Type} (condition : Condition) (body : Build α) : Build α :=
  within (·.enterCondition condition) Chain.leaveCondition body

/-- The step of the body runs once per element of a source. Gives the list of its results. -/
def withIteration {α : Type} (source : Source) (body : IterationScope → Build α) :
    Build Reference :=
  within (·.enterIteration source) Chain.leaveIteration (body {})

end Build

/-- The chain that a computation on the parameters defines. -/
def Blueprint.define (b : Blueprint) (body : Reference → Build (Option Output)) :
    Except DefinitionError Chain :=
  let (returned, c) := (body .params).run b.build
  c.conclude returned

end StepGraph
