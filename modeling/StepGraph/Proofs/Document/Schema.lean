import StepGraph.Proofs.Document.Encoding
import StepGraph.Document.Writer

/-!
# Schemas read back

In the text of a schema a keyword that is not set is left out. This leaves two things that a text
cannot tell apart: `null` as the default value is read as no default value, and a further keyword
with the name of a keyword that has a place of its own is read in this place. A schema without
either (`Schema.Unambiguous`) is read back (`encodes_schema`), whatever else it holds.
-/

namespace StepGraph

namespace Schema

/-- The keywords with a place of their own. -/
def placed : List String :=
  ["type", "description", "default", "enum", "items", "order", "metadata"]

/-- No mapping in the schema has a key twice. -/
def KeysOnce : Schema → Prop
  | ⟨_, _, default, allowed, items, _, _, extra⟩ =>
    (∀ j, default = some j → j.KeysOnce) ∧ (∀ js, allowed = some js → (Json.array js).KeysOnce) ∧
      (match items with
        | some s => KeysOnce s
        | none => True) ∧ (Json.object extra).KeysOnce

/-- Neither the schema nor one of its items, at any depth, has the default value `null` or a further
keyword with the name of one that has a place of its own. -/
def Unambiguous : Schema → Prop
  | ⟨_, _, default, _, items, _, _, extra⟩ =>
    default ≠ some .null ∧ (∀ k ∈ Dict.keys extra, k ∉ placed) ∧
      (match items with
        | some s => Unambiguous s
        | none => True)

/-- The members of a schema come in the order of its keywords. -/
theorem toJson_eq (s : Schema) : s.toJson = .object (
    Json.optionalMember "type" .string s.kind ++ (
    Json.optionalMember "description" .string s.description ++ (
    Json.optionalMember "default" id s.default ++ (
    Json.optionalMember "enum" .array s.allowed ++ (
    Json.optionalMember "items" toJson s.items ++ (
    Json.optionalMember "order" (.number <| .ofInt64 ·) s.order ++ (
    Json.optionalMember "metadata" Metadata.toJson s.metadata ++ s.extra))))))) := by
  obtain ⟨kind, description, default, allowed, items, order, metadata, extra⟩ := s
  unfold toJson
  simp only [List.append_assoc]
  cases items <;> rfl

theorem toJson_ne_null (s : Schema) : s.toJson ≠ .null := by
  rw [toJson_eq]
  exact nofun

end Schema

namespace Document

open Json

theorem encodes_choice (c : Choice) : Encodes (.record .choice) c.toJson c := by
  have hspelled : Spelled Record.choice.fields _ (c.description, c.value, ()) :=
    .required (encodes_text c.description) <|
    .required (encodes_text c.value) .nil
  exact encodes_closed hspelled

theorem encodes_suggestions (s : SuggestionChain) :
    Encodes (.record .suggestions) s.toJson s := by
  have hspelled : Spelled Record.suggestions.fields _ (s.url, s.projectId, s.outputKey, ()) :=
    .required (encodes_text s.url) <|
    .required (encodes_text s.projectId) <|
    .required (encodes_text s.outputKey) .nil
  exact encodes_closed hspelled

theorem encodes_metadata (m : Metadata) : Encodes (.record .metadata) m.toJson m := by
  have hspelled : Spelled Record.metadata.fields _
      (m.contentType, m.min, m.max, m.acceptedFileTypes, m.advanced, m.title, m.description,
        m.choices, m.hidden, m.suggestions, ()) :=
    .optional (fun c _ => ⟨encodes_contentType c, nofun⟩) <|
    .optional (fun x _ => ⟨encodes_float64 x, nofun⟩) <|
    .optional (fun x _ => ⟨encodes_float64 x, nofun⟩) <|
    .optional (fun ts _ => ⟨encodes_list fun t _ => encodes_text t, nofun⟩) <|
    .optional (fun b _ => ⟨encodes_flag b, nofun⟩) <|
    .optional (fun s _ => ⟨encodes_text s, nofun⟩) <|
    .optional (fun s _ => ⟨encodes_text s, nofun⟩) <|
    .optional (fun cs _ => ⟨encodes_list fun c _ => encodes_choice c, nofun⟩) <|
    .optional (fun b _ => ⟨encodes_flag b, nofun⟩) <|
    .optional (fun s _ => ⟨encodes_suggestions s, nofun⟩) .nil
  have hclosed := encodes_closed hspelled
  rw [List.append_nil] at hclosed
  rw [Metadata.toJson]
  simp only [List.append_assoc]
  exact hclosed

/-- A schema is read back if the schema of its items is. -/
theorem encodes_schema_of_items {s : Schema} (hkeys : s.KeysOnce) (h : s.Unambiguous)
    (hitems : ∀ i, s.items = some i → Encodes (.record .schema) i.toJson i) :
    Encodes (.record .schema) s.toJson s := by
  obtain ⟨kind, description, default, allowed, items, order, metadata, extra⟩ := s
  unfold Schema.KeysOnce at hkeys
  unfold Schema.Unambiguous at h
  obtain ⟨hdefault, hallowed, -, hextra⟩ := hkeys
  obtain ⟨hnull, hunknown, -⟩ := h
  have hspelled : Spelled Record.schema.fields _
      (kind, description, default, allowed, items, order, metadata, ()) :=
    .optional (fun s _ => ⟨encodes_text s, nofun⟩) <|
    .optional (fun s _ => ⟨encodes_text s, nofun⟩) <|
    .optional (fun j hj => ⟨encodes_any (hdefault j hj), fun hn => hnull (hn ▸ hj)⟩) <|
    .optional (fun js hjs => ⟨encodes_array (hallowed js hjs), nofun⟩) <|
    .optional (fun i hi => ⟨hitems i hi, i.toJson_ne_null⟩) <|
    .optional (fun n _ => ⟨encodes_int64 n, nofun⟩) <|
    .optional (fun m _ => ⟨encodes_metadata m, nofun⟩) .nil
  have hrecord := encodes_record hspelled ⟨fun _ => rfl, hunknown, hextra⟩
  rw [List.append_nil] at hrecord
  rw [Schema.toJson_eq]
  simp only [List.append_assoc] at hrecord
  exact hrecord

/-- A schema is read back unless it has the default value `null` or a further keyword with the name
of one that has a place of its own. -/
theorem encodes_schema : (s : Schema) → s.KeysOnce → s.Unambiguous →
    Encodes (.record .schema) s.toJson s
  | ⟨kind, description, default, allowed, none, order, metadata, extra⟩, hkeys, h =>
    encodes_schema_of_items hkeys h nofun
  | ⟨kind, description, default, allowed, some i, order, metadata, extra⟩, hkeys, h => by
    refine encodes_schema_of_items hkeys h ?_
    rintro _ ⟨⟩
    exact encodes_schema i hkeys.2.2.1 h.2.2

end Document
end StepGraph
