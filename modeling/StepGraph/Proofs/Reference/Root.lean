import Mathlib.Data.List.Basic
import StepGraph.Reference.Root

/-!
# What the root of a reference says about its path

* `Reference.Under`: the path is a given root, or goes on after it with a separator.
* `isIterationScoped_iff`: the root of a reference only exists in an iteration if the path is under
  `foreach.item` or `foreach.index`.
-/

namespace StepGraph

/-- A path starts at a root if it is the root, or goes on after it with a separator. -/
theorem Root.startsAt_eq_true_iff {root path : List Char} :
    startsAt root path = true ↔
      ∃ rest, path = root ++ rest ∧ ∀ c ∈ rest.head?, c = '.' ∨ c = '[' := by
  unfold startsAt
  constructor
  · intro h
    split at h
    · rename_i hp
      exact ⟨[], (List.isPrefixOf?_eq_some_iff_append_eq.mp hp).symm, by simp⟩
    · rename_i c rest hp
      refine ⟨c :: rest, (List.isPrefixOf?_eq_some_iff_append_eq.mp hp).symm, ?_⟩
      simpa [isSeparator] using h
    · cases h
  · rintro ⟨rest, hp, hc⟩
    rw [List.isPrefixOf?_eq_some_iff_append_eq.mpr hp.symm]
    cases rest with
    | nil => rfl
    | cons c rest => simpa [isSeparator] using hc

/-- What goes on after a name ends it. -/
theorem Root.isSeparator_head? {rest : List Char} (h : ∀ c ∈ rest.head?, c = '.' ∨ c = '[') :
    ∀ c ∈ rest.head?, (!isSeparator c) = false := by
  intro c hc
  obtain rfl | rfl := h c hc <;> rfl

namespace Reference

/-- The path is `root`, or goes on after it with a dot or a bracket. -/
def Under (r : Reference) (root : String) : Prop :=
  ∃ rest, r.path.toList = root.toList ++ rest ∧ ∀ c ∈ rest.head?, c = '.' ∨ c = '['

/-- The reference reaches into the element or into the position of an iteration. -/
def OfIteration (r : Reference) : Prop := r.Under "foreach.item" ∨ r.Under "foreach.index"

variable {r : Reference}

theorem startsAt_iff {root : String} :
    Root.startsAt root.toList r.path.toList = true ↔ r.Under root :=
  Root.startsAt_eq_true_iff

/-- A path is under one root only. -/
theorem not_under_params (h : r.OfIteration) : ¬r.Under "params" := by
  rintro ⟨rest, hp, -⟩
  rcases h with ⟨rest', h, -⟩ | ⟨rest', h, -⟩ <;> simp [hp] at h

/-- The result of a step is there outside of iterations. -/
theorem isIterationScoped_ofStepPath (rest : List Char) :
    (Root.ofStepPath rest).isIterationScoped = false := by
  unfold Root.ofStepPath
  simp only
  split
  · rfl
  · split
    · rfl
    · split <;> rfl

/-- The root only exists in an iteration if the path says so. -/
theorem isIterationScoped_iff : r.root.isIterationScoped = true ↔ r.OfIteration := by
  unfold root Root.ofPath
  by_cases hparams : Root.startsAt "params".toList r.path.toList = true
  · rw [if_pos hparams]
    exact ⟨nofun, fun h => absurd (startsAt_iff.mp hparams) (not_under_params h)⟩
  · rw [if_neg hparams]
    by_cases hitem : Root.startsAt "foreach.item".toList r.path.toList = true
    · rw [if_pos hitem]
      exact ⟨fun _ => .inl (startsAt_iff.mp hitem), fun _ => rfl⟩
    · rw [if_neg hitem]
      by_cases hindex : Root.startsAt "foreach.index".toList r.path.toList = true
      · rw [if_pos hindex]
        exact ⟨fun _ => .inr (startsAt_iff.mp hindex), fun _ => rfl⟩
      · rw [if_neg hindex]
        have hnot : ¬r.OfIteration := by
          rintro (h | h)
          · exact hitem (startsAt_iff.mpr h)
          · exact hindex (startsAt_iff.mpr h)
        refine iff_of_false ?_ hnot
        cases Root.afterSteps? r.path.toList with
        | none => nofun
        | some rest => simp [isIterationScoped_ofStepPath]

end Reference
end StepGraph
