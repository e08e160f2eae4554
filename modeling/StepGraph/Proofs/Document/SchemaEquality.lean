import StepGraph.Proofs.Document.Schema
import StepGraph.Proofs.Json.Same

/-!
# Equal schemas

Two schemas are equal if they are in every keyword (`same_iff`). A schema equals itself if no
mapping in it has a key twice (`same_self`).
-/

namespace StepGraph

theorem sameOption_some_iff {α : Type} {same : α → α → Bool} {a : α} {b : Option α} :
    sameOption same (some a) b = true ↔ ∃ b', b = some b' ∧ same a b' = true := by
  cases b <;> simp [sameOption]

theorem sameOption_self {α : Type} {same : α → α → Bool} {a : Option α}
    (h : ∀ v, a = some v → same v v = true) : sameOption same a a = true := by
  cases a with
  | none => rfl
  | some v => exact h v rfl

namespace Schema

/-! ## One keyword after the other -/

theorem keysOnce_iff {s : Schema} : s.KeysOnce ↔
    (∀ j, s.default = some j → j.KeysOnce) ∧
      (∀ js, s.allowed = some js → (Json.array js).KeysOnce) ∧
      (∀ i, s.items = some i → i.KeysOnce) ∧ (Json.object s.extra).KeysOnce := by
  obtain ⟨kind, description, default, allowed, items, order, metadata, extra⟩ := s
  cases items with
  | none => exact ⟨fun h => ⟨h.1, h.2.1, nofun, h.2.2.2⟩, fun h => ⟨h.1, h.2.1, trivial, h.2.2.2⟩⟩
  | some i =>
    refine ⟨fun h => ⟨h.1, h.2.1, ?_, h.2.2.2⟩, fun h => ⟨h.1, h.2.1, h.2.2.1 i rfl, h.2.2.2⟩⟩
    rintro _ ⟨⟩
    exact h.2.2.1

theorem unambiguous_iff {s : Schema} : s.Unambiguous ↔
    s.default ≠ some .null ∧ (∀ k ∈ Dict.keys s.extra, k ∉ placed) ∧
      ∀ i, s.items = some i → i.Unambiguous := by
  obtain ⟨kind, description, default, allowed, items, order, metadata, extra⟩ := s
  cases items with
  | none => exact ⟨fun h => ⟨h.1, h.2.1, nofun⟩, fun h => ⟨h.1, h.2.1, trivial⟩⟩
  | some i =>
    refine ⟨fun h => ⟨h.1, h.2.1, ?_⟩, fun h => ⟨h.1, h.2.1, h.2.2 i rfl⟩⟩
    rintro _ ⟨⟩
    exact h.2.2

theorem same_iff {s t : Schema} : s.same t = true ↔
    s.kind = t.kind ∧ s.description = t.description ∧
      sameOption Json.same s.default t.default = true ∧
      sameOption Json.sameItems s.allowed t.allowed = true ∧
      sameOption Schema.same s.items t.items = true ∧ s.order = t.order ∧
      sameOption Metadata.same s.metadata t.metadata = true ∧
      Dict.sameBy Json.same s.extra t.extra = true := by
  obtain ⟨kind, description, default, allowed, items, order, metadata, extra⟩ := s
  obtain ⟨kind', description', default', allowed', items', order', metadata', extra'⟩ := t
  have heq : Schema.same ⟨kind, description, default, allowed, items, order, metadata, extra⟩
      ⟨kind', description', default', allowed', items', order', metadata', extra'⟩ =
        (kind == kind' && description == description' && sameOption Json.same default default' &&
          sameOption Json.sameItems allowed allowed' && sameOption Schema.same items items' &&
          order == order' && sameOption Metadata.same metadata metadata' &&
          Dict.sameBy Json.same extra extra') := by
    unfold Schema.same
    cases items <;> cases items' <;> rfl
  rw [heq]
  simp only [Bool.and_eq_true, beq_iff_eq, and_assoc]

theorem metadata_same_self (m : Metadata) : m.same m = true := by
  have hfloat : ∀ x : Finite64, x.sameValue x = true := by simp [Finite64.sameValue]
  unfold Metadata.same
  rw [sameOption_self fun x _ => hfloat x, sameOption_self fun x _ => hfloat x]
  simp

/-- A schema equals itself if no mapping in it has a key twice. -/
theorem same_self : (s : Schema) → s.KeysOnce → s.same s = true
  | ⟨kind, description, default, allowed, items, order, metadata, extra⟩, h => by
    obtain ⟨hdefault, hallowed, hitems, hextra⟩ := keysOnce_iff.mp h
    rw [Json.KeysOnce, Json.membersKeysOnce_iff] at hextra
    have hitems_same : sameOption Schema.same items items = true := by
      match items, hitems with
      | none, _ => rfl
      | some i, hitems => exact same_self i (hitems i rfl)
    refine same_iff.mpr ⟨rfl, rfl, ?_, ?_, hitems_same, rfl, ?_, ?_⟩
    · exact sameOption_self fun j hj => Json.same_self j (hdefault j hj)
    · refine sameOption_self fun js hjs => ?_
      have hkeys := hallowed js hjs
      rw [Json.KeysOnce, Json.itemsKeysOnce_iff] at hkeys
      exact Json.sameItems_self js hkeys
    · exact sameOption_self fun m _ => metadata_same_self m
    · refine Dict.sameBy_iff.mpr ⟨rfl, fun m hm => ?_⟩
      have hfound := (Dict.get?_eq_some_iff hextra.1).mpr hm
      exact ⟨m.2, hfound, Json.same_self m.2 (hextra.2 m hm)⟩

end Schema
end StepGraph
