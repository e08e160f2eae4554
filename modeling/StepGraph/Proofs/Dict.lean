import Mathlib.Data.List.Forall2
import StepGraph.Dict

/-!
# What is found in a dictionary

* `get?_eq_some_iff`: with distinct keys a value is found where it stands.
* `Rel R d e`: the same keys in the same order, with values that `R` relates.
-/

namespace StepGraph
namespace Dict

variable {α β : Type} {d : Dict α} {e : Dict β} {key : String} {a : α}

theorem mem_of_get?_eq_some (h : get? d key = some a) : (key, a) ∈ d := by
  induction d with
  | nil => cases h
  | cons m d ih =>
    obtain ⟨k, v⟩ := m
    unfold get? at h
    split at h
    · rename_i hk
      cases h
      subst hk
      exact List.mem_cons_self ..
    · exact List.mem_cons_of_mem _ (ih h)

theorem mem_keys_iff : key ∈ keys d ↔ ∃ a, get? d key = some a := by
  induction d with
  | nil => simp [keys, get?]
  | cons m d ih =>
    obtain ⟨k, v⟩ := m
    unfold get?
    split
    · rename_i hk
      simp [keys, hk]
    · rename_i hk
      rw [← ih, keys, List.map_cons, List.mem_cons]
      exact or_iff_right (Ne.symm hk)

theorem get?_eq_none_iff : get? d key = none ↔ key ∉ keys d := by
  rw [mem_keys_iff, Option.eq_none_iff_forall_ne_some]
  exact not_exists.symm

theorem eq_nil_of_get? (h : ∀ key, get? d key = none) : d = [] := by
  cases d with
  | nil => rfl
  | cons m d =>
    have hm := h m.1
    rw [get?, if_pos rfl] at hm
    cases hm

/-- With distinct keys a value is found where it stands. -/
theorem get?_eq_some_iff (h : (keys d).Nodup) : get? d key = some a ↔ (key, a) ∈ d := by
  refine ⟨mem_of_get?_eq_some, fun hm => ?_⟩
  induction d with
  | nil => cases hm
  | cons m d ih =>
    obtain ⟨k, v⟩ := m
    obtain ⟨hnew, hd⟩ := List.nodup_cons.mp h
    unfold get?
    rcases List.mem_cons.mp hm with heq | hm
    · cases heq
      exact if_pos rfl
    · have hkey : key ∈ keys d := List.mem_map.mpr ⟨_, hm, rfl⟩
      rw [if_neg fun hk : k = key => hnew (hk ▸ hkey)]
      exact ih hd hm

theorem get?_append (d d' : Dict α) (key : String) :
    get? (d ++ d') key = (get? d key).or (get? d' key) := by
  induction d with
  | nil => rfl
  | cons m d ih =>
    obtain ⟨k, v⟩ := m
    rw [List.cons_append, get?, get?]
    split
    · rfl
    · exact ih

/-- Every value has an equal one under its key, and there are no more values. -/
theorem sameBy_iff {same : α → α → Bool} {d d' : Dict α} : sameBy same d d' = true ↔
    d.length = d'.length ∧ ∀ m ∈ d, ∃ a, get? d' m.1 = some a ∧ same m.2 a = true := by
  unfold sameBy
  rw [Bool.and_eq_true, beq_iff_eq, List.all_eq_true]
  refine and_congr_right' (forall₂_congr fun m _ => ?_)
  obtain ⟨k, v⟩ := m
  cases h : get? d' k <;> simp [h]

variable {R : α → β → Prop}

/-- The same keys in the same order, with values that `R` relates. -/
abbrev Rel (R : α → β → Prop) : Dict α → Dict β → Prop :=
  List.Forall₂ fun m v => m.1 = v.1 ∧ R m.2 v.2

theorem Rel.insert (h : Rel R d e) {b : β} (key : String) (hab : R a b) :
    Rel R (Dict.insert d key a) (Dict.insert e key b) := by
  induction h with
  | nil => exact .cons ⟨rfl, hab⟩ .nil
  | @cons m v d e hm tail ih =>
    obtain ⟨k, a'⟩ := m
    obtain ⟨k', b'⟩ := v
    obtain ⟨rfl, hvalue⟩ : k = k' ∧ R a' b' := hm
    unfold Dict.insert
    split
    · exact .cons ⟨rfl, hab⟩ tail
    · exact .cons ⟨rfl, hvalue⟩ ih

/-- Under every key stand related values, or nothing. -/
theorem Rel.get? (h : Rel R d e) (key : String) :
    Option.Rel R (Dict.get? d key) (Dict.get? e key) := by
  induction h with
  | nil => exact .none
  | @cons m v d e hm _ ih =>
    obtain ⟨k, a⟩ := m
    obtain ⟨k', b⟩ := v
    obtain ⟨rfl, hvalue⟩ : k = k' ∧ R a b := hm
    unfold Dict.get?
    split
    · exact .some hvalue
    · exact ih

/-- Related values or nothing under every key: the same keys, and related values. -/
theorem forall_rel_get?_iff {R : String → α → β → Prop} :
    (∀ key, Option.Rel (R key) (Dict.get? d key) (Dict.get? e key)) ↔
      (∀ key, key ∈ keys d ↔ key ∈ keys e) ∧
        ∀ key a b, Dict.get? d key = some a → Dict.get? e key = some b → R key a b := by
  constructor
  · intro h
    refine ⟨fun key => ?_, fun key a b ha hb => ?_⟩
    · have hkey := h key
      rw [mem_keys_iff, mem_keys_iff]
      generalize Dict.get? d key = a, Dict.get? e key = b at hkey
      cases hkey with
      | none => exact iff_of_false nofun nofun
      | some => exact iff_of_true ⟨_, rfl⟩ ⟨_, rfl⟩
    · have hkey := h key
      rw [ha, hb] at hkey
      cases hkey with
      | some hab => exact hab
  · rintro ⟨hkeys, hvalues⟩ key
    cases ha : Dict.get? d key with
    | none =>
      have hnot : key ∉ keys e := fun hmem => get?_eq_none_iff.mp ha ((hkeys key).mpr hmem)
      rw [get?_eq_none_iff.mpr hnot]
      exact .none
    | some a =>
      obtain ⟨b, hb⟩ := mem_keys_iff.mp ((hkeys key).mp (mem_keys_iff.mpr ⟨a, ha⟩))
      rw [hb]
      exact .some (hvalues key a b ha hb)

end Dict
end StepGraph
