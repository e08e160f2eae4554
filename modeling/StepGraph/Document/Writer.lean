import StepGraph.Json.Printer
import StepGraph.Run.Basic

/-!
# Documents as JSON

What is sent has one JSON form, with the members in a fixed order. A member without a value is left
out, except for the lists and objects that may be empty.

* Schemas have the keywords with a place of their own first. A further keyword that has the name of
  one of them is written again behind them.
* Of the step of a graph only the condition and the source may be left out.
-/

namespace StepGraph

/-! ## Schemas -/

/-- The JSON form of an offered value. -/
def Choice.toJson (c : Choice) : Json :=
  .object [("description", .string c.description), ("value", .string c.value)]

/-- The JSON form of a chain that proposes values. -/
def SuggestionChain.toJson (s : SuggestionChain) : Json :=
  .object [("url", .string s.url), ("project_id", .string s.projectId),
    ("output_key", .string s.outputKey)]

/-- The JSON form of metadata. -/
def Metadata.toJson (m : Metadata) : Json :=
  .object <|
    Json.optionalMember "content_type" (.string ·.name) m.contentType ++
    Json.optionalMember "min" (.number <| .float ·) m.min ++
    Json.optionalMember "max" (.number <| .float ·) m.max ++
    Json.optionalMember "accepted_file_types" (.array <| ·.map .string) m.acceptedFileTypes ++
    Json.optionalMember "advanced" .bool m.advanced ++
    Json.optionalMember "title" .string m.title ++
    Json.optionalMember "description" .string m.description ++
    Json.optionalMember "enum" (.array <| ·.map Choice.toJson) m.choices ++
    Json.optionalMember "hidden" .bool m.hidden ++
    Json.optionalMember "value_suggestion_chain" SuggestionChain.toJson m.suggestions

namespace Schema

/-- The JSON form of a schema. -/
def toJson : Schema → Json
  | ⟨kind, description, default, allowed, items, order, metadata, extra⟩ =>
    .object <|
      Json.optionalMember "type" .string kind ++
      Json.optionalMember "description" .string description ++
      Json.optionalMember "default" id default ++
      Json.optionalMember "enum" .array allowed ++
      (match items with
        | some s => [("items", toJson s)]
        | none => []) ++
      Json.optionalMember "order" (.number <| .ofInt64 ·) order ++
      Json.optionalMember "metadata" Metadata.toJson metadata ++ extra

/-- The JSON form of schemas by name. -/
def dictToJson (schemas : Dict Schema) : Json :=
  .object (schemas.map fun (name, s) => (name, s.toJson))

end Schema

/-! ## Graphs -/

namespace Graph

/-- The JSON form of a step. -/
def Step.toJson (s : Step) : Json :=
  .object <|
    [("name", .string s.name), ("transformation", .string s.transformation),
      ("params", .object s.params)] ++
    Json.optionalMember "if" id s.condition ++ Json.optionalMember "foreach" id s.source

/-- The JSON form of a graph. -/
def toJson (g : Graph) : Json :=
  .object [
    ("studio_id", .string g.studioId), ("title", .string g.title),
    ("description", .string g.description),
    ("params_schema", .object [("properties", Schema.dictToJson g.parameters)]),
    ("transformations", .object [("steps", .array (g.steps.map Step.toJson)),
      ("output", g.output)]),
    ("publicly_triggerable", .bool g.publiclyTriggerable), ("public", .bool g.isPublic)]

/-- The text of a graph without blanks. -/
def compact (g : Graph) : String := g.toJson.compact

/-- The text of a graph over several lines. -/
def indented (g : Graph) : String := g.toJson.indented

/-- The JSON value of a graph, which has every key once. -/
def value (g : Graph) : Json := g.toJson.merged

end Graph

/-! ## Runs -/

namespace Run

/-- The JSON form of a request. -/
def Request.toJson (r : Request) : Json :=
  .object <|
    [("studio_id", .string r.studioId), ("params", .object r.params),
      ("return_state", .bool r.returnState)] ++
    Json.optionalMember "version" .string r.version ++
    Json.optionalMember "studio_override" Graph.toJson r.override

/-- The JSON form of a reported error. -/
def Failure.toJson (f : Failure) : Json :=
  .object <|
    [("raw", .string f.raw), ("body", .string f.body)] ++
    Json.optionalMember "stepName" .string f.stepName

/-- The JSON form of a list of reported errors. -/
def failuresToJson (fs : List Failure) : Json := .array (fs.map Failure.toJson)

/-- A list of objects. -/
def objectsToJson (objects : List (List (String × Json))) : Json := .array (objects.map .object)

/-- The JSON form of the state of a step. -/
def StepState.toJson (s : StepState) : Json :=
  .object <|
    [("executionTime", .number (.float s.executionTime)), ("output", .object s.output)] ++
    Json.optionalMember "skipped" .bool s.skipped ++
    Json.optionalMember "results" objectsToJson s.results ++
    Json.optionalMember "skippedItems" objectsToJson s.skippedItems

/-- The JSON form of the state of a run. -/
def State.toJson (s : State) : Json :=
  .object [("params", .object s.params),
    ("steps", .object (s.steps.map fun (name, step) => (name, step.toJson)))]

/-- The JSON form of a response. -/
def Response.toJson (r : Response) : Json :=
  .object <|
    [("status", .string r.status.name), ("output", .object r.output)] ++
    Json.optionalMember "executionTime" (.number <| .float ·) r.executionTime ++
    [("errors", failuresToJson r.errors)] ++
    Json.optionalMember "state" State.toJson r.state

end Run

end StepGraph
