import StepGraph.Proofs.Document.Graph
import StepGraph.Proofs.Document.Reading

/-!
# One rewrite brings a document into its normal form

A reader takes more texts than the printer writes: fields may be left out or `null`, records may be
lists, closed records may have unknown fields, mappings may repeat a key. What it reads from such a
text is held (`Held`), and what is held has a form that reads back (`encodes_of_held`) and nests as
little as the text was allowed to (`depth_le_of_held`). So the text that is written for a value that
was read gives the same value again (`ofText?_rewritten`).
-/

namespace StepGraph
namespace Document

open Json

variable {limit : Nat}

theorem KeptWithin.eq_nil {r : Record} {extra : Dict Json} (h : KeptWithin limit r extra)
    (hr : r.isOpen = false) : extra = [] := by
  by_contra hne
  rw [h.isOpen hne] at hr
  cases hr

/-- The members of fields with values that are held spell these values. -/
theorem spelled_of_hold {fs : List Field} {slots : Slots fs}
    (hslots : Slots.Hold (fun f => f.Held limit) fs slots)
    (h : ∀ s value, Held limit s value → Encodes s (s.toJson value) value) :
    Spelled fs (Slots.members fs slots) slots := by
  induction fs with
  | nil => exact .nil
  | cons f fs ih =>
    obtain ⟨value, slots⟩ := slots
    obtain ⟨hvalue, hslots⟩ := hslots
    obtain ⟨key, shape, presence⟩ := f
    have htail := ih hslots
    cases presence with
    | required => exact .required (h _ _ hvalue) htail
    | defaulted default => exact .defaulted (h _ _ hvalue) htail
    | optional => exact .optional (fun v hv => (hvalue v hv).imp_left (h _ _)) htail
    | omittable => exact .omittable (fun v hv => (hvalue v hv).imp_left (h _ _)) htail
    | nullable => exact .nullable (fun v hv => h _ _ (hvalue v hv)) htail

theorem encodes_scalar {s : Shape} (hs : s.isScalar = true) (value : s.Carrier) :
    Encodes s (s.toJson value) value := by
  cases s with
  | any | list | dict | record => cases hs
  | text => exact encodes_text value
  | flag => exact encodes_flag value
  | int64 => exact encodes_int64 value
  | float64 => exact encodes_float64 value
  | contentType => exact encodes_contentType value
  | status => exact encodes_status value

/-- What is held reads back from its JSON form. -/
theorem encodes_of_held (s : Shape) (value : s.Carrier) (h : Held limit s value) :
    Encodes s (s.toJson value) value := by
  induction limit generalizing s with
  | zero =>
    cases s with
    | any => exact encodes_any (held_any.mp h).keysOnce
    | list | dict | record => exact h.elim
    | _ => exact encodes_scalar rfl value
  | succ n ih =>
    cases s with
    | any => exact encodes_any (held_any.mp h).keysOnce
    | list item => exact encodes_list fun v hv => ih item v (h v hv)
    | dict entry => exact encodes_dict h.1 fun v hv => ih entry v.2 (h.2 v hv)
    | record r =>
      obtain ⟨slots, extra, rfl, hslots, hextra⟩ := h
      rw [Shape.toJson, toJson_make r slots extra hextra.eq_nil]
      exact encodes_record (spelled_of_hold hslots ih) hextra.toKept
    | _ => exact encodes_scalar rfl value

theorem forall_mem_optionalMember {α : Type} {P : Json → Prop} {key : String}
    {toJson : α → Json} {value : Option α} (h : ∀ v, value = some v → P (toJson v)) :
    ∀ m ∈ optionalMember key toJson value, P m.2 := by
  cases value with
  | none => exact List.forall_mem_nil _
  | some v => exact List.forall_mem_singleton.mpr (h v rfl)

/-- The values of the members of fields nest no deeper than what the fields hold. -/
theorem depth_le_of_mem_members {fs : List Field} {slots : Slots fs}
    (hslots : Slots.Hold (fun f => f.Held limit) fs slots)
    (h : ∀ s value, Held limit s value → (s.toJson value).depth ≤ limit) :
    ∀ m ∈ Slots.members fs slots, m.2.depth ≤ limit := by
  induction fs with
  | nil => exact List.forall_mem_nil _
  | cons f fs ih =>
    obtain ⟨value, slots⟩ := slots
    obtain ⟨hvalue, hslots⟩ := hslots
    obtain ⟨key, shape, presence⟩ := f
    rw [Slots.members, List.forall_mem_append]
    refine ⟨?_, ih hslots⟩
    cases presence with
    | required | defaulted => exact List.forall_mem_singleton.mpr (h _ _ hvalue)
    | optional | omittable =>
      exact forall_mem_optionalMember (P := (·.depth ≤ limit)) fun v hv => h _ _ (hvalue v hv).1
    | nullable =>
      exact forall_mem_optionalMember (P := (·.depth ≤ limit)) fun v hv => h _ _ (hvalue v hv)

/-- What is held nests as little in its JSON form as the text it may come from. -/
theorem depth_le_of_held (s : Shape) (value : s.Carrier) (h : Held limit s value) :
    (s.toJson value).depth ≤ limit := by
  induction limit generalizing s with
  | zero =>
    cases s with
    | any => exact (held_any.mp h).depth_le
    | list | dict | record => exact h.elim
    | _ => exact Nat.zero_le _
  | succ n ih =>
    cases s with
    | any => exact (held_any.mp h).depth_le
    | list item =>
      refine depth_array_le fun j hj => ?_
      obtain ⟨v, hv, rfl⟩ := List.mem_map.mp hj
      exact ih item v (h v hv)
    | dict entry =>
      refine depth_object_le fun j hj => ?_
      obtain ⟨v, hv, rfl⟩ := List.mem_map.mp hj
      exact ih entry v.2 (h.2 v hv)
    | record r =>
      obtain ⟨slots, extra, rfl, hslots, hextra⟩ := h
      rw [Shape.toJson, toJson_make r slots extra hextra.eq_nil]
      refine depth_object_le (List.forall_mem_append.mpr ⟨?_, hextra.depth_le⟩)
      exact depth_le_of_mem_members hslots ih
    | _ => exact Nat.zero_le _

/-! ## Whole texts -/

/-- Whatever a document looks like, the text that is written for its value gives this value again,
in both layouts. -/
theorem ofText?_rewritten {s : Shape} (hs : s.reserve ≤ depthLimit) {text : String}
    {value : s.Carrier} (h : ofText? s text = .ok value)
    (hfloats : ∀ x ∈ (s.toJson value).floats, x.ReadsBack) :
    ofText? s (s.toJson value).compact = .ok value ∧
      ofText? s (s.toJson value).indented = .ok value := by
  have hheld : Held depthLimit s value := (yields_readShape s hs).of_readText h
  have hdepth : (s.toJson value).depth ≤ depthLimit := depth_le_of_held s value hheld
  exact ofText?_of_encodes (encodes_of_held s value hheld) ⟨hdepth, hfloats⟩

end Document

namespace Graph

/-- A text that is taken for a graph, whatever fields it leaves out, sets to `null`, adds, repeats
or gives as a list, is in its normal form after one rewrite: the text that is written for the graph
gives the same graph again, in both layouts. The floats of the graph must be read back. -/
theorem ofText?_of_accepted {text : String} {g : Graph} (h : Graph.ofText? text = .ok g)
    (hfloats : ∀ x ∈ g.toJson.floats, x.ReadsBack) :
    Graph.ofText? g.compact = .ok g ∧ Graph.ofText? g.indented = .ok g :=
  Document.ofText?_rewritten (s := .record .graph) (Nat.zero_le _) h hfloats

open Finite64 (half half_readsBack)

/-- A text with fields that are left out, `null` or unknown, a key that comes twice and records in
the form of lists. -/
def looseText : String :=
  "\x7b\"studio_id\":\"s\",\"x\":[],\"params_schema\":[\x7b\"n\":\x7b\"default\":null,\"f\":1," ++
  "\"f\":0.5\x7d\x7d],\"transformations\":[[[\"a\",\"t\",\x7b\x7d,null]]]\x7d"

/-- The same graph as it is written. -/
def normalText : String :=
  "\x7b\"studio_id\":\"s\",\"title\":\"\",\"description\":\"\",\"params_schema\":" ++
  "\x7b\"properties\":\x7b\"n\":\x7b\"f\":0.5\x7d\x7d\x7d,\"transformations\":\x7b\"steps\":[" ++
  "\x7b\"name\":\"a\",\"transformation\":\"t\",\"params\":\x7b\x7d,\"if\":null\x7d]," ++
  "\"output\":null\x7d,\"publicly_triggerable\":false,\"public\":false\x7d"

theorem ofText?_looseText : (Graph.ofText? looseText).toOption.map
    (fun g => (g.compact, g.toJson.floats)) = some (normalText, [half]) := by
  decide +kernel

/-- The loose text is rewritten once, and then its graph stays the same. -/
theorem ofText?_of_accepted_looseText : ∃ g, Graph.ofText? looseText = .ok g ∧
    g.compact = normalText ∧ (∀ x ∈ g.toJson.floats, x.ReadsBack) ∧
      Graph.ofText? normalText = .ok g ∧ Graph.ofText? g.indented = .ok g := by
  have hloose := ofText?_looseText
  cases hg : Graph.ofText? looseText with
  | error e =>
    rw [hg] at hloose
    cases hloose
  | ok g =>
    rw [hg] at hloose
    obtain ⟨hcompact, hfloats⟩ := Prod.mk.inj (Option.some.inj hloose)
    have hreads : ∀ x ∈ g.toJson.floats, x.ReadsBack := by simp [hfloats, half_readsBack]
    obtain ⟨hagain, hindented⟩ := ofText?_of_accepted hg hreads
    exact ⟨g, rfl, hcompact, hreads, hcompact ▸ hagain, hindented⟩

end Graph
end StepGraph
