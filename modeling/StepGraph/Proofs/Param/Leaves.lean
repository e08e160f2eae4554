import StepGraph.Graph.Basic
import StepGraph.Proofs.Result
import StepGraph.Substitution

/-!
# The texts that a parameter becomes

Where a parameter has a text or a reference, its wire form has a text: the literal itself, or the
template. These leaves are all that a scan for templates looks at (`templatePaths_of_substitute`).
-/

namespace StepGraph

/-- What becomes a text. -/
inductive Leaf where
  | literal (text : String)
  | reference (r : Reference)

namespace Leaf

/-- The text that the leaf becomes. -/
def text : Leaf → String
  | literal text => text
  | reference r => r.template

/-- The reference of a leaf, if it is one. -/
def reference? : Leaf → Option Reference
  | literal _ => none
  | reference r => some r

/-- The paths of the templates that a scan finds in the leaf. -/
def paths (l : Leaf) : List String := Template.paths l.text

end Leaf

namespace Param

mutual

/-- The texts and the references in a parameter, first to last. -/
def leaves : Param → List Leaf
  | .string s => [.literal s]
  | .ref r => [.reference r]
  | .array items => itemLeaves items
  | .object members => memberLeaves members
  | _ => []

/-- The texts and the references in a list. -/
def itemLeaves : List Param → List Leaf
  | [] => []
  | p :: ps => leaves p ++ itemLeaves ps

/-- The texts and the references in the values of an object. -/
def memberLeaves : List (String × Param) → List Leaf
  | [] => []
  | (_, p) :: ms => leaves p ++ memberLeaves ms

end

mutual

/-- The references of a parameter are those among its leaves. -/
theorem references_eq : (p : Param) → p.references = p.leaves.filterMap Leaf.reference?
  | .null | .bool _ | .integer _ | .unsigned _ | .float _ | .string _ | .ref _ => rfl
  | .array items => by
    rw [references, leaves]
    exact itemReferences_eq items
  | .object members => by
    rw [references, leaves]
    exact memberReferences_eq members

theorem itemReferences_eq : (ps : List Param) →
    itemReferences ps = (itemLeaves ps).filterMap Leaf.reference?
  | [] => rfl
  | p :: ps => by
    rw [itemReferences, itemLeaves, List.filterMap_append, references_eq p, itemReferences_eq ps]

theorem memberReferences_eq : (ms : List (String × Param)) →
    memberReferences ms = (memberLeaves ms).filterMap Leaf.reference?
  | [] => rfl
  | (_, p) :: ms => by
    rw [memberReferences, memberLeaves, List.filterMap_append, references_eq p,
      memberReferences_eq ms]

end

mutual

/-- The templates in the wire form of a parameter are those in its leaves. -/
theorem templatePaths_of_substitute {location : String} {j : Json} :
    (p : Param) → substitute location p = .ok j → j.templatePaths = p.leaves.flatMap Leaf.paths
  | .null, h | .bool _, h | .integer _, h | .unsigned _, h | .float (.finite _), h => by
    cases h
    rfl
  | .float (.infinite _), h | .float .nan, h => by cases h
  | .string s, h | .ref r, h => by
    cases h
    exact (List.append_nil _).symm
  | .array items, h => by
    rw [substitute] at h
    obtain ⟨js, hjs, rfl⟩ := map_eq_ok.mp h
    exact templatePaths_of_substituteItems items hjs
  | .object members, h => by
    rw [substitute] at h
    obtain ⟨js, hjs, rfl⟩ := map_eq_ok.mp h
    exact templatePaths_of_substituteMembers members hjs

theorem templatePaths_of_substituteItems {location : String} {index : Nat} {js : List Json} :
    (ps : List Param) → substituteItems location index ps = .ok js →
      Json.itemTemplatePaths js = (itemLeaves ps).flatMap Leaf.paths
  | [], h => by
    cases h
    rfl
  | p :: ps, h => by
    rw [substituteItems] at h
    obtain ⟨j, hj, h⟩ := bind_eq_ok.mp h
    obtain ⟨js, hjs, h⟩ := bind_eq_ok.mp h
    cases h
    rw [Json.itemTemplatePaths, itemLeaves, List.flatMap_append,
      templatePaths_of_substitute p hj, templatePaths_of_substituteItems ps hjs]

theorem templatePaths_of_substituteMembers {location : String} {js : List (String × Json)} :
    (ms : List (String × Param)) → substituteMembers location ms = .ok js →
      Json.memberTemplatePaths js = (memberLeaves ms).flatMap Leaf.paths
  | [], h => by
    cases h
    rfl
  | (_, p) :: ms, h => by
    rw [substituteMembers] at h
    obtain ⟨j, hj, h⟩ := bind_eq_ok.mp h
    obtain ⟨js, hjs, h⟩ := bind_eq_ok.mp h
    cases h
    rw [Json.memberTemplatePaths, memberLeaves, List.flatMap_append,
      templatePaths_of_substitute p hj, templatePaths_of_substituteMembers ms hjs]

end

end Param
end StepGraph
