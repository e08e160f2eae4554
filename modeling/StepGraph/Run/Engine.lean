import StepGraph.Chain.Compile
import StepGraph.Run.Basic

/-!
# Running a chain

To run a chain is to compile it and to ask an engine for a run of the compiled graph, in the place
of the one that is deployed under the same id. The engine is asked to tell its state.

A run fails before it starts, if the chain has no wire form, on the way to the engine, in the
engine, or by not coming to its end. What the engine reports is passed on as it is.
-/

namespace StepGraph
namespace Run

/-- Why a run gives no output. -/
inductive Error where
  /-- The chain has no wire form, so that nothing was sent. -/
  | serialization (cause : SerializationError)
  /-- The engine was not reached. -/
  | transport (reason : String)
  /-- The engine refused the request. -/
  | api (reason : String)
  /-- The run has stopped, or is not at its end. -/
  | incomplete (status : Status) (failures : List Failure)

/-- The wording of an error. -/
def Error.message : Error → String
  | serialization cause => cause.message
  | transport reason => "Transport failure: " ++ reason
  | api reason => "API error: " ++ reason
  | incomplete status _ => "Chain failed to complete successfully (status: " ++ status.name ++ ")"

/-- The output of a complete run. -/
def Response.result (r : Response) : Except Error (List (String × Json)) :=
  if r.isComplete then .ok r.output else .error (.incomplete r.status r.errors)

/-- What answers requests. -/
abbrev Engine := Request → Except Error Response

end Run

namespace Chain

/-- The request for a run of the chain. -/
def request (c : Chain) (params : List (String × Json)) : Except SerializationError Run.Request :=
  c.compile.map fun graph => {
    studioId := graph.studioId
    params := params
    returnState := true
    version := none
    override := some graph }

/-- Runs the chain. A chain that does not compile is not sent. -/
def run (c : Chain) (engine : Run.Engine) (params : List (String × Json)) :
    Except Run.Error Run.Response :=
  match c.request params with
  | .ok request => engine request
  | .error cause => .error (.serialization cause)

end Chain
end StepGraph
