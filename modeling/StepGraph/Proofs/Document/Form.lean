import StepGraph.Document.Shape
import StepGraph.Proofs.Document.Schema
import StepGraph.Document.Writer

/-!
# The JSON form of a document

What a shape holds has a JSON form, and that of a record lists the members of its fields in their
order, then those that an open record keeps (`toJson_make`).
-/

namespace StepGraph
namespace Document

/-- The JSON form of a record. -/
def Record.toJson : (r : Record) → r.Carrier → Json
  | schema, s => Schema.toJson s
  | metadata, m => Metadata.toJson m
  | choice, c => Choice.toJson c
  | suggestions, s => SuggestionChain.toJson s
  | graph, g => Graph.toJson g
  | parameters, schemas => .object [("properties", Schema.dictToJson schemas)]
  | transformations, (steps, output) =>
    .object [("steps", .array (steps.map Graph.Step.toJson)), ("output", output)]
  | step, s => Graph.Step.toJson s
  | request, r => Run.Request.toJson r
  | failure, f => Run.Failure.toJson f
  | response, r => Run.Response.toJson r
  | state, s => Run.State.toJson s
  | stepState, s => Run.StepState.toJson s

/-- The JSON form of what a shape holds. -/
def Shape.toJson : (s : Shape) → s.Carrier → Json
  | any, j => j
  | text, s => .string s
  | flag, b => .bool b
  | int64, n => .number (.ofInt64 n)
  | float64, x => .number (.float x)
  | contentType, c => .string c.name
  | status, s => .string s.name
  | list item, values => .array (values.map (toJson item))
  | dict entry, values => .object (values.map fun v => (v.1, toJson entry v.2))
  | record r, value => r.toJson value

/-- The members of a field: one, or none if the field has no value. -/
def Presence.members {α : Type} (key : String) (toJson : α → Json) :
    (p : Presence α) → p.Carrier → List (String × Json)
  | required, a | defaulted _, a => [(key, toJson a)]
  | optional, a | omittable, a | nullable, a => Json.optionalMember key toJson a

/-- The members of fields in their order. -/
def Slots.members : (fs : List Field) → Slots fs → List (String × Json)
  | [], () => []
  | f :: fs, (value, values) =>
    f.presence.members f.key f.shape.toJson value ++ members fs values

theorem toJson_list_any : Shape.toJson (.list .any) = Json.array := by
  funext js
  exact congrArg Json.array (List.map_id js)

theorem toJson_dict_any : Shape.toJson (.dict .any) = Json.object := by
  funext ms
  exact congrArg Json.object (List.map_id ms)

theorem toJson_list_dict_any : Shape.toJson (.list (.dict .any)) = Run.objectsToJson := by
  funext objects
  show Json.array (objects.map (Shape.toJson (.dict .any))) = _
  rw [toJson_dict_any]
  rfl

/-- The JSON form of a record lists the members of its fields and those that it keeps. -/
theorem toJson_make (r : Record) (slots : Slots r.fields) (extra : Dict Json)
    (h : r.isOpen = false → extra = []) :
    r.toJson (r.make slots extra) = .object (Slots.members r.fields slots ++ extra) := by
  cases r with
  | schema =>
    show Schema.toJson _ = _
    rw [Schema.toJson_eq]
    simp only [Slots.members, Presence.members, toJson_list_any, List.append_nil,
      List.append_assoc]
    rfl
  | metadata | step | request | failure | response | stepState =>
    -- The members stand in one list here, and in a list for each field there.
    cases h rfl
    simp only [Record.toJson, Metadata.toJson, Graph.Step.toJson, Run.Request.toJson,
      Run.Failure.toJson, Run.Response.toJson, Run.StepState.toJson, Slots.members,
      Presence.members, toJson_dict_any, toJson_list_dict_any, List.append_nil, List.append_assoc]
    rfl
  | state =>
    cases h rfl
    simp only [Record.toJson, Run.State.toJson, Slots.members, Presence.members, toJson_dict_any]
    rfl
  | choice | suggestions | graph | parameters | transformations =>
    cases h rfl
    rfl

end Document
end StepGraph
