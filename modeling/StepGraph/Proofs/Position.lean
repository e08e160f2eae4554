import Mathlib.Data.List.Lex

/-!
# The first thing in a tree

* `IsFirst`: what stands at the least of the positions.
* `Finds`: what a walk comes upon that goes through the positions in ascending order and ends at the
  first thing. A walk through two parts goes through the second one if it finds nothing in the first
  (`Finds.or`, `Finds.children`), and so does a walk through a list (`finds_numbered_cons`).
-/

namespace StepGraph

/-- The way from the root of a tree to a part of it: the number of a child on every level. The
lexicographic order of positions is the order of a walk that goes into depth first. -/
abbrev Position := List Nat

/-- The root comes before everything else. -/
theorem Position.root_le (q : Position) : [] ≤ q :=
  not_lt.mp (List.not_lt_nil q)

/-- Positions below a child come before those below a later one. -/
theorem Position.cons_le_cons_of_lt {i j : Nat} (h : i < j) (p q : Position) : i :: p ≤ j :: q :=
  le_of_lt (List.Lex.rel h)

variable {α β : Type}

/-- `a` stands at `position`, and nothing stands before it. -/
structure IsFirst (stands : Position → α → Prop) (position : Position) (a : α) : Prop where
  here : stands position a
  least : ∀ q b, stands q b → position ≤ q

/-- What a walk finds: the first thing that stands anywhere, or nothing if there is none. -/
def Finds (stands : Position → α → Prop) : Option α → Prop
  | none => ∀ position a, ¬stands position a
  | some a => ∃ position, IsFirst stands position a

/-- What stands in the elements of a list, which are numbered from `n` on. -/
def Numbered (stands : Nat → β → Position → α → Prop) (n : Nat) (l : List β) (position : Position)
    (a : α) : Prop :=
  ∃ k b q, l[k]? = some b ∧ position = (n + k) :: q ∧ stands (n + k) b q a

namespace Finds

variable {A B : Position → α → Prop} {found found' : Option α}

theorem none_iff : Finds A none ↔ ∀ p a, ¬A p a := Iff.rfl

/-- A walk finds something if there is anything. -/
theorem isSome_iff (h : Finds A found) : found.isSome = true ↔ ∃ p a, A p a := by
  cases found with
  | none => simpa using none_iff.mp h
  | some a =>
    obtain ⟨p, hp, -⟩ := h
    exact iff_of_true rfl ⟨p, a, hp⟩

theorem of_iff (h : Finds A found) (hB : ∀ p a, B p a ↔ A p a) : Finds B found := by
  have : B = A := funext fun p => funext fun a => propext (hB p a)
  rwa [this]

/-- A walk through the child with the number `i`. -/
theorem below (h : Finds A found) (i : Nat) : Finds (fun p a => ∃ q, p = i :: q ∧ A q a) found := by
  cases found with
  | none =>
    rw [none_iff] at h ⊢
    rintro p a ⟨q, -, hq⟩
    exact h q a hq
  | some a =>
    obtain ⟨p, hp, hleast⟩ := h
    refine ⟨i :: p, ⟨p, rfl, hp⟩, ?_⟩
    rintro _ b ⟨q, rfl, hq⟩
    exact List.cons_le_cons i (hleast q b hq)

/-- A walk through two parts, one behind the other. -/
theorem or (hA : Finds A found) (hB : Finds B found')
    (hle : ∀ p a q b, A p a → B q b → p ≤ q) :
    Finds (fun p a => A p a ∨ B p a) (found.or found') := by
  cases found with
  | some a =>
    obtain ⟨p, hp, hleast⟩ := hA
    refine ⟨p, .inl hp, ?_⟩
    rintro q b (hq | hq)
    · exact hleast q b hq
    · exact hle p a q b hp hq
  | none =>
    rw [Option.none_or]
    refine hB.of_iff fun p a => ⟨?_, .inr⟩
    rintro (h | h)
    · exact absurd h (none_iff.mp hA p a)
    · exact h

end Finds

/-- A walk through a node with two children. -/
theorem Finds.children {A B : Position → α → Prop} {found found' : Option α} (hA : Finds A found)
    (hB : Finds B found') :
    Finds (fun p a => (∃ q, p = 0 :: q ∧ A q a) ∨ ∃ q, p = 1 :: q ∧ B q a) (found.or found') := by
  refine (hA.below 0).or (hB.below 1) ?_
  rintro _ - _ - ⟨p, rfl, -⟩ ⟨q, rfl, -⟩
  exact Position.cons_le_cons_of_lt Nat.zero_lt_one p q

variable {stands : Nat → β → Position → α → Prop} {n : Nat}

theorem finds_numbered_nil : Finds (Numbered stands n []) none := by
  rw [Finds.none_iff]
  rintro p a ⟨k, b, q, hk, -⟩
  simp at hk

theorem numbered_cons {b : β} {l : List β} {p : Position} {a : α} :
    Numbered stands n (b :: l) p a ↔
      (∃ q, p = n :: q ∧ stands n b q a) ∨ Numbered stands (n + 1) l p a := by
  constructor
  · rintro ⟨k, b', q, hk, rfl, hq⟩
    cases k with
    | zero =>
      cases hk
      exact .inl ⟨q, rfl, hq⟩
    | succ k =>
      refine .inr ⟨k, b', q, hk, ?_⟩
      rw [Nat.add_assoc, Nat.add_comm 1 k]
      exact ⟨rfl, hq⟩
  · rintro (⟨q, rfl, hq⟩ | ⟨k, b', q, hk, rfl, hq⟩)
    · exact ⟨0, b, q, rfl, rfl, hq⟩
    · refine ⟨k + 1, b', q, hk, ?_⟩
      rw [Nat.add_assoc, Nat.add_comm 1 k] at hq ⊢
      exact ⟨rfl, hq⟩

/-- A walk through a list goes through the first element and then through the rest. -/
theorem finds_numbered_cons {b : β} {l : List β} {found found' : Option α}
    (hb : Finds (stands n b) found) (hl : Finds (Numbered stands (n + 1) l) found') :
    Finds (Numbered stands n (b :: l)) (found.or found') := by
  refine ((hb.below n).or hl ?_).of_iff fun p a => numbered_cons
  rintro _ a _ c ⟨p, rfl, -⟩ ⟨k, -, q, -, rfl, -⟩
  exact Position.cons_le_cons_of_lt (by omega) p q

end StepGraph
