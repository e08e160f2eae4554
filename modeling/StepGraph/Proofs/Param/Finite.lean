import StepGraph.Proofs.Param.Walk
import StepGraph.Proofs.Result
import StepGraph.Substitution

/-!
# The first number that is not finite

* `Param.FaultAt`: the numbers in a parameter that have no wire form, each with the error that names
  its place.
* `finds_substitute`: substitution fails with the first of these errors, in the order of positions,
  and succeeds if there is none.
-/

namespace StepGraph

/-- Infinite, or not a number. -/
def Binary64.NotFinite : Binary64 → Prop
  | finite _ => False
  | infinite _ | nan => True

namespace Param

/-- A number that is not finite stands at `position` in `p`, and `e` tells so when `p` itself stands
at `location`. -/
def FaultAt (location : String) (p : Param) (position : Position) (e : SerializationError) : Prop :=
  ∃ place x, p.At position place (.float x) ∧ x.NotFinite ∧
    e = .nonFiniteNumber (location ++ place) x

variable {location : String} {position : Position} {e : SerializationError}

theorem faultAt_float {x : Binary64} :
    (float x).FaultAt location position e ↔
      position = [] ∧ x.NotFinite ∧ e = .nonFiniteNumber location x := by
  constructor
  · rintro ⟨place, y, h, hy, rfl⟩
    cases h
    exact ⟨rfl, hy, by rw [String.append_empty]⟩
  · rintro ⟨rfl, hx, rfl⟩
    exact ⟨"", x, .here _, hx, by rw [String.append_empty]⟩

/-- The place of an item, and then the way on from there. -/
theorem faultAt_array {items : List Param} :
    (array items).FaultAt location position e ↔
      Numbered (fun i p => p.FaultAt (itemLocation location i)) 0 items position e := by
  constructor
  · rintro ⟨place, x, h, hx, rfl⟩
    cases h with
    | @item _ i p _ q place' hi hp =>
      refine ⟨i, p, q, hi, by simp, place', x, hp, hx, ?_⟩
      simp [itemLocation, String.append_assoc]
  · rintro ⟨i, p, q, hi, rfl, place, x, hp, hx, rfl⟩
    rw [Nat.zero_add]
    refine ⟨_, x, .item hi hp, hx, ?_⟩
    simp [itemLocation, String.append_assoc]

theorem faultAt_object {members : List (String × Param)} :
    (object members).FaultAt location position e ↔
      Numbered (fun _ (m : String × Param) => m.2.FaultAt (memberLocation location m.1)) 0 members
        position e := by
  constructor
  · rintro ⟨place, x, h, hx, rfl⟩
    cases h with
    | @member _ i key p _ q place' hi hp =>
      refine ⟨i, (key, p), q, hi, by simp, place', x, hp, hx, ?_⟩
      simp [memberLocation, String.append_assoc]
  · rintro ⟨i, ⟨key, p⟩, q, hi, rfl, place, x, hp, hx, rfl⟩
    rw [Nat.zero_add]
    refine ⟨_, x, .member hi hp, hx, ?_⟩
    simp [memberLocation, String.append_assoc]

mutual

/-- Substitution fails because of the first number that is not finite, and only because of it. -/
theorem finds_substitute (location : String) :
    (p : Param) → Finds (p.FaultAt location) (failure? (substitute location p))
  | .float (.finite x) => Finds.none_iff.mpr fun _ _ h => (faultAt_float.mp h).2.1
  | .float (.infinite negative) =>
    ⟨[], faultAt_float.mpr ⟨rfl, trivial, rfl⟩, fun q _ _ => Position.root_le q⟩
  | .float .nan => ⟨[], faultAt_float.mpr ⟨rfl, trivial, rfl⟩, fun q _ _ => Position.root_le q⟩
  | .array items => by
    rw [substitute, failure?_map]
    exact (finds_substituteItems location 0 items).of_iff fun _ _ => faultAt_array
  | .object members => by
    rw [substitute, failure?_map]
    exact (finds_substituteMembers location 0 members).of_iff fun _ _ => faultAt_object
  | .null | .bool _ | .integer _ | .unsigned _ | .string _ | .ref _ =>
    Finds.none_iff.mpr <| by
      rintro p e ⟨place, x, h, -⟩
      cases h

theorem finds_substituteItems (location : String) (n : Nat) : (ps : List Param) →
    Finds (Numbered (fun i p => p.FaultAt (itemLocation location i)) n ps)
      (failure? (substituteItems location n ps))
  | [] => finds_numbered_nil
  | p :: ps => by
    rw [substituteItems, failure?_bind fun j => failure?_bind_pure _ _]
    exact finds_numbered_cons (finds_substitute _ p) (finds_substituteItems location (n + 1) ps)

theorem finds_substituteMembers (location : String) (n : Nat) : (ms : List (String × Param)) →
    Finds (Numbered (fun _ (m : String × Param) => m.2.FaultAt (memberLocation location m.1)) n ms)
      (failure? (substituteMembers location ms))
  | [] => finds_numbered_nil
  | (k, p) :: ms => by
    rw [substituteMembers, failure?_bind fun j => failure?_bind_pure _ _]
    exact finds_numbered_cons (finds_substitute _ p) (finds_substituteMembers location (n + 1) ms)

end

end Param
end StepGraph
