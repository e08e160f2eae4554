import StepGraph.Proofs.Dict
import StepGraph.Proofs.Json.Legible

/-!
# Equal values

A value whose objects have every key once equals itself (`same_self`).
-/

namespace StepGraph
namespace Json

/-- Every member has an equal one of its key. -/
theorem sameMembers_iff {as : List (String × Json)} {bs : Dict Json} :
    sameMembers as bs = true ↔
      ∀ m ∈ as, ∃ b, Dict.get? bs m.1 = some b ∧ m.2.same b = true := by
  induction as with
  | nil => simp [sameMembers]
  | cons m as ih =>
    obtain ⟨k, a⟩ := m
    rw [sameMembers, Bool.and_eq_true, ih, List.forall_mem_cons]
    refine and_congr_left' ?_
    cases Dict.get? bs k <;> simp

theorem eq_null_of_same {j : Json} (h : Json.null.same j = true) : j = .null := by
  cases j with
  | null => rfl
  | _ => cases h

theorem number_same_self (x : Number) : x.same x = true := by
  cases x with
  | integer n h => exact beq_self_eq_true n
  | float x => simp [Number.same, Finite64.sameValue]

mutual

/-- A value whose objects have every key once equals itself. -/
theorem same_self : (j : Json) → j.KeysOnce → j.same j = true
  | .null, _ => rfl
  | .bool b, _ => beq_self_eq_true b
  | .number x, _ => number_same_self x
  | .string s, _ => beq_self_eq_true s
  | .array js, h => by
    rw [KeysOnce, itemsKeysOnce_iff] at h
    exact sameItems_self js h
  | .object ms, h => by
    rw [KeysOnce, membersKeysOnce_iff] at h
    rw [same, beq_self_eq_true, Bool.true_and, sameMembers_iff]
    exact fun m hm => ⟨m.2, (Dict.get?_eq_some_iff h.1).mpr hm, values_same_self ms h.2 m hm⟩

theorem sameItems_self : (js : List Json) → (∀ j ∈ js, j.KeysOnce) → sameItems js js = true
  | [], _ => rfl
  | j :: js, h => by
    obtain ⟨hj, hjs⟩ := List.forall_mem_cons.mp h
    rw [sameItems, same_self j hj, sameItems_self js hjs]
    rfl

theorem values_same_self : (ms : List (String × Json)) → (∀ m ∈ ms, m.2.KeysOnce) →
    ∀ m ∈ ms, m.2.same m.2 = true
  | [], _ => List.forall_mem_nil _
  | (_, j) :: ms, h => by
    obtain ⟨hj, hms⟩ := List.forall_mem_cons.mp h
    exact List.forall_mem_cons.mpr ⟨same_self j hj, values_same_self ms hms⟩

end

end Json
end StepGraph
