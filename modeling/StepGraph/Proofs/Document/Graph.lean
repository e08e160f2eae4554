import StepGraph.Document.Writer
import StepGraph.Proofs.Document.Schema

/-!
# Graphs read back

A step keeps the condition `null` apart from no condition, but not a source `null` from no source.
`Graph.Restorable` says what a graph must be like for its text to determine it;
`Graph.ofText?_of_restorable` is the round trip for both layouts.
-/

namespace StepGraph

namespace Graph

/-- The step is determined by its text. -/
structure Step.Restorable (s : Step) : Prop where
  params : (Json.object s.params).KeysOnce
  condition : ∀ j, s.condition = some j → j.KeysOnce
  source : ∀ j, s.source = some j → j.KeysOnce ∧ j ≠ .null

/-- The graph is determined by its text. -/
structure Restorable (g : Graph) : Prop where
  names : (Dict.keys g.parameters).Nodup
  parameters : ∀ m ∈ g.parameters, m.2.KeysOnce ∧ m.2.Unambiguous
  steps : ∀ s ∈ g.steps, s.Restorable
  output : g.output.KeysOnce

end Graph

namespace Document

open Json

theorem encodes_step {s : Graph.Step} (h : s.Restorable) :
    Encodes (.record .step) s.toJson s := by
  have hspelled : Spelled Record.step.fields _
      (s.name, s.transformation, s.params, s.condition, s.source, ()) :=
    .required (encodes_text s.name) <|
    .required (encodes_text s.transformation) <|
    .required (encodes_object h.params) <|
    .nullable (fun j hj => encodes_any (h.condition j hj)) <|
    .omittable (fun j hj => ⟨encodes_any (h.source j hj).1, (h.source j hj).2⟩) .nil
  have hclosed := encodes_closed hspelled
  rw [List.append_nil] at hclosed
  rw [Graph.Step.toJson, List.append_assoc]
  exact hclosed

theorem encodes_graph {g : Graph} (h : g.Restorable) : Encodes (.record .graph) g.toJson g := by
  have hparameters : Spelled Record.parameters.fields _ (g.parameters, ()) :=
    .required (encodes_dict h.names fun m hm =>
      encodes_schema m.2 (h.parameters m hm).1 (h.parameters m hm).2) .nil
  have htransformations : Spelled Record.transformations.fields _ (g.steps, g.output, ()) :=
    .required (encodes_list fun s hs => encodes_step (h.steps s hs)) <|
    .defaulted (encodes_any h.output) .nil
  have hspelled : Spelled Record.graph.fields _
      (g.studioId, g.title, g.description, g.parameters, (g.steps, g.output),
        g.publiclyTriggerable, g.isPublic, ()) :=
    .required (encodes_text g.studioId) <|
    .defaulted (encodes_text g.title) <|
    .defaulted (encodes_text g.description) <|
    .required (encodes_closed hparameters) <|
    .required (encodes_closed htransformations) <|
    .defaulted (encodes_flag g.publiclyTriggerable) <|
    .defaulted (encodes_flag g.isPublic) .nil
  exact encodes_closed hspelled

end Document

/-- The text of a graph is read back, in both layouts. -/
theorem Graph.ofText?_of_restorable {g : Graph} (h : g.Restorable)
    (hg : g.toJson.Legible Json.depthLimit) :
    Graph.ofText? g.compact = .ok g ∧ Graph.ofText? g.indented = .ok g :=
  Document.ofText?_of_encodes (Document.encodes_graph h) hg

end StepGraph
