import StepGraph.Proofs.Json.Numeral

/-!
# Values whose text can be read

Three things stand between a value and what is read from its text: the number of containers inside
one another (`depth`), floats (`floats`), and objects that have a key twice (`KeysOnce`). The first
two make a text unreadable or change a number in it (`Legible`), the third changes the value.
-/

namespace StepGraph
namespace Json

mutual

/-- How many containers stand inside one another. -/
def depth : Json → Nat
  | .array items => itemsDepth items + 1
  | .object members => membersDepth members + 1
  | _ => 0

/-- The greatest depth of an item. -/
def itemsDepth : List Json → Nat
  | [] => 0
  | j :: js => max (depth j) (itemsDepth js)

/-- The greatest depth of the value of a member. -/
def membersDepth : List (String × Json) → Nat
  | [] => 0
  | (_, j) :: ms => max (depth j) (membersDepth ms)

end

mutual

/-- The floats in a value, first to last. -/
def floats : Json → List Finite64
  | .number x => numberFloats x
  | .array items => itemsFloats items
  | .object members => membersFloats members
  | _ => []

/-- The floats in a list. -/
def itemsFloats : List Json → List Finite64
  | [] => []
  | j :: js => floats j ++ itemsFloats js

/-- The floats in the values of an object. -/
def membersFloats : List (String × Json) → List Finite64
  | [] => []
  | (_, j) :: ms => floats j ++ membersFloats ms

end

mutual

/-- No object in the value has a key twice. -/
def KeysOnce : Json → Prop
  | .array items => ItemsKeysOnce items
  | .object members => (Dict.keys members).Nodup ∧ MembersKeysOnce members
  | _ => True

/-- No object in the items has a key twice. -/
def ItemsKeysOnce : List Json → Prop
  | [] => True
  | j :: js => KeysOnce j ∧ ItemsKeysOnce js

/-- No object in the values of the members has a key twice. -/
def MembersKeysOnce : List (String × Json) → Prop
  | [] => True
  | (_, j) :: ms => KeysOnce j ∧ MembersKeysOnce ms

end

theorem itemsKeysOnce_iff {js : List Json} : ItemsKeysOnce js ↔ ∀ j ∈ js, j.KeysOnce := by
  induction js with
  | nil => simp [ItemsKeysOnce]
  | cons j js ih => simp [ItemsKeysOnce, ih]

theorem membersKeysOnce_iff {ms : List (String × Json)} :
    MembersKeysOnce ms ↔ ∀ m ∈ ms, m.2.KeysOnce := by
  induction ms with
  | nil => simp [MembersKeysOnce]
  | cons m ms ih =>
    obtain ⟨k, j⟩ := m
    simp only [MembersKeysOnce, ih, List.mem_cons, forall_eq_or_imp]

/-- The text of the value nests at most `limit` containers, and its floats are read back. -/
structure Legible (limit : Nat) (j : Json) : Prop where
  depth_le : j.depth ≤ limit
  floats : ∀ x ∈ j.floats, x.ReadsBack

theorem depth_le_itemsDepth {js : List Json} {j : Json} (h : j ∈ js) :
    j.depth ≤ itemsDepth js := by
  induction js with
  | nil => cases h
  | cons i js ih =>
    rw [itemsDepth]
    rcases List.mem_cons.mp h with rfl | h
    · exact Nat.le_max_left _ _
    · exact Nat.le_trans (ih h) (Nat.le_max_right _ _)

theorem forall_mem_itemsFloats_iff {P : Finite64 → Prop} {js : List Json} :
    (∀ x ∈ itemsFloats js, P x) ↔ ∀ j ∈ js, ∀ x ∈ j.floats, P x := by
  induction js with
  | nil => simp [itemsFloats]
  | cons j js ih => rw [itemsFloats, List.forall_mem_append, List.forall_mem_cons, ih]

theorem forall_mem_membersFloats_iff {P : Finite64 → Prop} {ms : List (String × Json)} :
    (∀ x ∈ membersFloats ms, P x) ↔ ∀ m ∈ ms, ∀ x ∈ m.2.floats, P x := by
  induction ms with
  | nil => simp [membersFloats]
  | cons m ms ih => rw [membersFloats, List.forall_mem_append, List.forall_mem_cons, ih]

/-- An object nests as deep as the list of its values. -/
theorem depth_object (ms : List (String × Json)) :
    (object ms).depth = (array (Dict.values ms)).depth := by
  rw [depth, depth]
  congr 1
  induction ms with
  | nil => rfl
  | cons m ms ih =>
    rw [membersDepth, ih]
    rfl

/-- A list nests one container more than each of its items. -/
theorem depth_items {limit : Nat} {js : List Json} (h : (array js).depth ≤ limit) :
    ∃ n, limit = n + 1 ∧ ∀ j ∈ js, j.depth ≤ n := by
  rw [depth] at h
  obtain ⟨n, rfl⟩ : ∃ n, limit = n + 1 := ⟨limit - 1, by omega⟩
  exact ⟨n, rfl, fun j hj => Nat.le_trans (depth_le_itemsDepth hj) (Nat.le_of_succ_le_succ h)⟩

/-- An object nests one container more than each of its values. -/
theorem depth_members {limit : Nat} {ms : List (String × Json)} (h : (object ms).depth ≤ limit) :
    ∃ n, limit = n + 1 ∧ ∀ m ∈ ms, m.2.depth ≤ n := by
  obtain ⟨n, rfl, hitems⟩ := depth_items (depth_object ms ▸ h)
  exact ⟨n, rfl, fun m hm => hitems m.2 (List.mem_map.mpr ⟨m, hm, rfl⟩)⟩

namespace Legible

/-- A list leaves one container less for its items. -/
theorem items {limit : Nat} {js : List Json} (h : Legible limit (.array js)) :
    ∃ n, limit = n + 1 ∧ ∀ j ∈ js, Legible n j := by
  obtain ⟨n, rfl, hdepth⟩ := depth_items h.depth_le
  exact ⟨n, rfl, fun j hj => ⟨hdepth j hj, forall_mem_itemsFloats_iff.mp h.floats j hj⟩⟩

/-- An object leaves one container less for its values. -/
theorem members {limit : Nat} {ms : List (String × Json)} (h : Legible limit (.object ms)) :
    ∃ n, limit = n + 1 ∧ ∀ m ∈ ms, Legible n m.2 := by
  obtain ⟨n, rfl, hdepth⟩ := depth_members h.depth_le
  exact ⟨n, rfl, fun m hm => ⟨hdepth m hm, forall_mem_membersFloats_iff.mp h.floats m hm⟩⟩

end Legible

end Json
end StepGraph
