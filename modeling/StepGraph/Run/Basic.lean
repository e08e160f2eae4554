import StepGraph.Graph.Basic

/-!
# Running a graph

A request asks the remote engine to run a graph, and a response tells how the run went. The engine
may send its state along, with the result of every step.
-/

namespace StepGraph
namespace Run

/-- Asks for a run. -/
structure Request where
  studioId : String
  params : List (String × Json)
  /-- The response shall tell the state. -/
  returnState : Bool
  version : Option String
  /-- The graph to run in the place of the one that is deployed. -/
  override : Option Graph

/-- How a run stands. -/
inductive Status where
  | complete
  | inProgress
  | failed
  | cancelled
  deriving DecidableEq, Repr

/-- Every status with its name. -/
def Status.table : List (String × Status) := [
  ("complete", complete), ("inprogress", inProgress), ("failed", failed), ("cancelled", cancelled)]

/-- The name of a status. -/
def Status.name : Status → String
  | complete => "complete"
  | inProgress => "inprogress"
  | failed => "failed"
  | cancelled => "cancelled"

/-- An error that the engine reports. -/
structure Failure where
  raw : String
  body : String
  stepName : Option String
  deriving DecidableEq, Repr

/-- The state of a step. -/
structure StepState where
  executionTime : Finite64
  output : List (String × Json)
  skipped : Option Bool
  /-- The results of an iterated step, one per element. -/
  results : Option (List (List (String × Json)))
  /-- The elements that an iterated step left out. -/
  skippedItems : Option (List (List (String × Json)))

/-- The state of a run. -/
structure State where
  params : List (String × Json)
  steps : List (String × StepState)

/-- Tells how a run went. -/
structure Response where
  status : Status
  output : List (String × Json)
  executionTime : Option Finite64
  errors : List Failure
  state : Option State

namespace Response

/-- The run came to its end. -/
def isComplete (r : Response) : Bool := r.status == .complete

end Response

end Run
end StepGraph
