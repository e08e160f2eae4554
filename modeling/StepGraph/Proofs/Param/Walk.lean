import StepGraph.Param
import StepGraph.Proofs.Position

/-!
# Where the references of a parameter stand

* `Param.At`: the parts of a parameter, with the way to them as a position and as a text.
* `finds_references`: `Param.references` lists the references in the order of their positions, so
  the first one in the list that passes a test is the first one in the tree.
-/

namespace StepGraph
namespace Param

/-- `p.At position place q`: the part `q` of `p` stands at `position`. `place` is the way to it as a
text: a dot with the key for every member, the number in brackets for every item. -/
inductive At : Param → Position → String → Param → Prop where
  | here (p : Param) : At p [] "" p
  | item {items : List Param} {i : Nat} {p q : Param} {position : Position} {place : String} :
      items[i]? = some p → At p position place q →
      At (.array items) (i :: position) ("[" ++ toString i ++ "]" ++ place) q
  | member {members : List (String × Param)} {i : Nat} {key : String} {p q : Param}
      {position : Position} {place : String} :
      members[i]? = some (key, p) → At p position place q →
      At (.object members) (i :: position) ("." ++ key ++ place) q

/-- The reference `r` stands at `position` and passes the test. -/
def Passes (test : Reference → Bool) (p : Param) (position : Position) (r : Reference) : Prop :=
  (∃ place, p.At position place (.ref r)) ∧ test r = true

variable {test : Reference → Bool} {position : Position} {r : Reference}

theorem passes_ref {s : Reference} :
    (ref s).Passes test position r ↔ position = [] ∧ r = s ∧ test s = true := by
  constructor
  · rintro ⟨⟨place, h⟩, hr⟩
    cases h
    exact ⟨rfl, rfl, hr⟩
  · rintro ⟨rfl, rfl, hr⟩
    exact ⟨⟨"", .here _⟩, hr⟩

theorem passes_array {items : List Param} :
    (array items).Passes test position r ↔
      Numbered (fun _ p => p.Passes test) 0 items position r := by
  constructor
  · rintro ⟨⟨place, h⟩, hr⟩
    cases h with
    | @item _ i p _ q place' hi hp => exact ⟨i, p, q, hi, by simp, ⟨place', hp⟩, hr⟩
  · rintro ⟨i, p, q, hi, rfl, ⟨place, hp⟩, hr⟩
    rw [Nat.zero_add]
    exact ⟨⟨_, .item hi hp⟩, hr⟩

theorem passes_object {members : List (String × Param)} :
    (object members).Passes test position r ↔
      Numbered (fun _ (m : String × Param) => m.2.Passes test) 0 members position r := by
  constructor
  · rintro ⟨⟨place, h⟩, hr⟩
    cases h with
    | @member _ i key p _ q place' hi hp => exact ⟨i, (key, p), q, hi, by simp, ⟨place', hp⟩, hr⟩
  · rintro ⟨i, ⟨key, p⟩, q, hi, rfl, ⟨place, hp⟩, hr⟩
    rw [Nat.zero_add]
    exact ⟨⟨_, .member hi hp⟩, hr⟩

mutual

/-- The first reference that passes a test is the first one in the tree that does. -/
theorem finds_references (test : Reference → Bool) :
    (p : Param) → Finds (p.Passes test) (p.references.find? test)
  | .ref s => by
    rw [references, List.find?_singleton]
    split
    · rename_i hs
      exact ⟨[], passes_ref.mpr ⟨rfl, rfl, hs⟩, fun q _ _ => Position.root_le q⟩
    · rename_i hs
      exact Finds.none_iff.mpr fun p a h => hs (passes_ref.mp h).2.2
  | .array items => by
    rw [references]
    exact (finds_itemReferences test 0 items).of_iff fun _ _ => passes_array
  | .object members => by
    rw [references]
    exact (finds_memberReferences test 0 members).of_iff fun _ _ => passes_object
  | .null | .bool _ | .integer _ | .unsigned _ | .float _ | .string _ =>
    Finds.none_iff.mpr <| by
      rintro p a ⟨⟨place, h⟩, -⟩
      cases h

theorem finds_itemReferences (test : Reference → Bool) (n : Nat) : (ps : List Param) →
    Finds (Numbered (fun _ p => p.Passes test) n ps) ((itemReferences ps).find? test)
  | [] => finds_numbered_nil
  | p :: ps => by
    rw [itemReferences, List.find?_append]
    exact finds_numbered_cons (finds_references test p) (finds_itemReferences test (n + 1) ps)

theorem finds_memberReferences (test : Reference → Bool) (n : Nat) :
    (ms : List (String × Param)) →
    Finds (Numbered (fun _ (m : String × Param) => m.2.Passes test) n ms)
      ((memberReferences ms).find? test)
  | [] => finds_numbered_nil
  | (_, p) :: ms => by
    rw [memberReferences, List.find?_append]
    exact finds_numbered_cons (finds_references test p) (finds_memberReferences test (n + 1) ms)

end

end Param
end StepGraph
