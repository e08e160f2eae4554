import StepGraph.Proofs.Reference.Attribution

/-!
# What a longer path reaches into

A path is classified by what it starts with, and accessors write behind it. So what a path is taken
for does not change when accessors follow: they neither leave the step of a reference nor lead out
of an iteration. Nothing has to be known about the keys, nor about where the path comes from.

* `root_eq_iff`: the paths of every root.
* `root_of_under`, `stepName_of_under`: what goes on after a path has its root and its step.
* `root_of_follow`: so has what accessors reach.
-/

namespace StepGraph
namespace Reference

variable {r s : Reference} {kind : Root} {path rest name : List Char}

/-! ## The paths of a root -/

/-- The path is one of those that are told as `kind`. The name of a step ends at the first dot, so
it may have brackets. -/
inductive Rooted (r : Reference) : Root → Prop
  | params (h : r.Under "params") : Rooted r .params
  | foreachItem (h : r.Under "foreach.item") : Rooted r .foreachItem
  | foreachIndex (h : r.Under "foreach.index") : Rooted r .foreachIndex
  | result {kind : Root} {name : List Char} (hne : name ≠ []) (hdot : '.' ∉ name)
      (h : r.OfResult kind name) : Rooted r kind

/-- Every path of a root is told as this root. -/
theorem Rooted.root_eq (h : r.Rooted kind) : r.root = kind := by
  cases h with
  | params h =>
    unfold root Root.ofPath
    rw [if_pos (startsAt_iff.mpr h)]
  | foreachItem h =>
    have hparams : ¬Root.startsAt "params".toList r.path.toList = true :=
      mt startsAt_iff.mp (not_under_params (.inl h))
    unfold root Root.ofPath
    rw [if_neg hparams, if_pos (startsAt_iff.mpr h)]
  | foreachIndex h =>
    have hparams : ¬Root.startsAt "params".toList r.path.toList = true :=
      mt startsAt_iff.mp (not_under_params (.inr h))
    have hitem : ¬Root.startsAt "foreach.item".toList r.path.toList = true := by
      obtain ⟨tail, hpath, -⟩ := h
      rw [hpath]
      exact Bool.false_ne_true
    unfold root Root.ofPath
    rw [if_neg hparams, if_neg hitem, if_pos (startsAt_iff.mpr h)]
  | result hne hdot h => rw [root_of_result h, Root.ofResult_eq hne hdot]

/-- What follows `steps.` is told as a result if it is one: a name, a dot and a word. -/
theorem exists_of_ofStepPath {tail : List Char} (h : Root.ofStepPath tail ≠ .other) :
    ∃ name word rest, name ≠ [] ∧ '.' ∉ name ∧ Root.HasWord (Root.ofStepPath tail) word ∧
      tail = name ++ '.' :: (word ++ rest) ∧ ∀ c ∈ rest.head?, c = '.' ∨ c = '[' := by
  by_cases hdot : '.' ∈ tail
  · obtain ⟨name, tail, rfl, hname⟩ := List.eq_append_cons_of_mem hdot
    rw [Root.ofStepPath_append_dot hname] at h ⊢
    by_cases hempty : name = []
    · rw [if_pos hempty] at h
      exact absurd rfl h
    rw [if_neg hempty] at h ⊢
    by_cases houtput : Root.startsAt "output".toList tail = true
    · obtain ⟨rest, rfl, hrest⟩ := Root.startsAt_eq_true_iff.mp houtput
      rw [if_pos houtput]
      exact ⟨name, _, rest, hempty, hname, .output, rfl, hrest⟩
    rw [if_neg houtput] at h ⊢
    by_cases hresults : Root.startsAt "results".toList tail = true
    · obtain ⟨rest, rfl, hrest⟩ := Root.startsAt_eq_true_iff.mp hresults
      rw [if_pos hresults]
      exact ⟨name, _, rest, hempty, hname, .results, rfl, hrest⟩
    · rw [if_neg hresults] at h
      exact absurd rfl h
  · -- Without a dot there is no word behind the name.
    have hother : Root.ofStepPath tail = .other := by
      unfold Root.ofStepPath
      dsimp only
      rw [Root.dropWhile_ne_dot hdot]
      split <;> rfl
    exact absurd hother h

/-- A path that is told as a root is one of those of the root. -/
theorem rooted_root (h : r.root ≠ .other) : r.Rooted r.root := by
  unfold root Root.ofPath at h ⊢
  by_cases hparams : Root.startsAt "params".toList r.path.toList = true
  · rw [if_pos hparams]
    exact .params (startsAt_iff.mp hparams)
  rw [if_neg hparams] at h ⊢
  by_cases hitem : Root.startsAt "foreach.item".toList r.path.toList = true
  · rw [if_pos hitem]
    exact .foreachItem (startsAt_iff.mp hitem)
  rw [if_neg hitem] at h ⊢
  by_cases hindex : Root.startsAt "foreach.index".toList r.path.toList = true
  · rw [if_pos hindex]
    exact .foreachIndex (startsAt_iff.mp hindex)
  rw [if_neg hindex] at h ⊢
  cases hsteps : Root.afterSteps? r.path.toList with
  | none =>
    rw [hsteps] at h
    exact absurd rfl h
  | some tail =>
    rw [hsteps] at h
    dsimp only at h ⊢
    obtain ⟨name, word, rest, hne, hdot, hword, rfl, hrest⟩ := exists_of_ofStepPath h
    have hpath := List.isPrefixOf?_eq_some_iff_append_eq.mp hsteps
    exact .result hne hdot ⟨word, rest, hword, hpath.symm, hrest⟩

/-- A root other than `other` is told of the paths of this root and of no others. -/
theorem root_eq_iff (h : kind ≠ .other) : r.root = kind ↔ r.Rooted kind := by
  constructor
  · rintro rfl
    exact rooted_root h
  · exact Rooted.root_eq

/-! ## Longer paths -/

theorem OfResult.of_under (h : r.OfResult kind name) (hs : s.Under r.path) :
    s.OfResult kind name := by
  obtain ⟨word, rest, hword, hpath, hrest⟩ := h
  obtain ⟨more, hmore, hhead⟩ := hs
  refine ⟨word, rest ++ more, hword, ?_, ?_⟩
  · rw [hmore, hpath]
    simp only [List.append_assoc, List.cons_append]
  · cases rest with
    | nil => exact hhead
    | cons c rest => exact hrest

/-- What goes on after a path of a root is a path of this root. -/
theorem Rooted.of_under (h : r.Rooted kind) (hs : s.Under r.path) : s.Rooted kind := by
  cases h with
  | params h => exact .params (hs.trans h)
  | foreachItem h => exact .foreachItem (hs.trans h)
  | foreachIndex h => exact .foreachIndex (hs.trans h)
  | result hne hdot h => exact .result hne hdot (h.of_under hs)

theorem root_of_under (h : r.root ≠ .other) (hs : s.Under r.path) : s.root = r.root :=
  (root_eq_iff h).mpr (((root_eq_iff h).mp rfl).of_under hs)

theorem stepNameOfPath_eq_some_iff :
    stepNameOfPath path = some name ↔
      ∃ tail, path = "steps.".toList ++ tail ∧ nameBefore tail = some name := by
  unfold stepNameOfPath
  constructor
  · intro h
    split at h
    · cases h
    · rename_i tail hsteps
      exact ⟨tail, (List.isPrefixOf?_eq_some_iff_append_eq.mp hsteps).symm, h⟩
  · rintro ⟨tail, rfl, h⟩
    exact h

/-- What goes on after a path with a step name has this step name. -/
theorem stepName_of_under {name : String} (h : r.stepName = some name) (hs : s.Under r.path) :
    s.stepName = some name := by
  obtain ⟨cs, hcs, rfl⟩ := Option.map_eq_some_iff.mp h
  obtain ⟨tail, hpath, hname⟩ := stepNameOfPath_eq_some_iff.mp hcs
  obtain ⟨rest, hrest, hhead⟩ := hs
  have hlonger : stepNameOfPath s.path.toList = some cs := by
    rw [hrest, hpath, List.append_assoc]
    have hbefore : nameBefore (tail ++ rest) = some cs := (nameBefore_append hhead tail).trans hname
    exact stepNameOfPath_eq_some_iff.mpr ⟨tail ++ rest, rfl, hbefore⟩
  exact Option.map_eq_some_iff.mpr ⟨cs, hlonger, rfl⟩

/-- Accessors change neither the root of a reference, if it has one, nor the step that it reaches
into. So a reference to an iteration remains one. -/
theorem root_of_follow (r : Reference) (accessors : List Accessor) :
    (r.root ≠ .other → (r.follow accessors).root = r.root) ∧
      (∀ name, r.stepName = some name → (r.follow accessors).stepName = some name) ∧
      (r.root.isIterationScoped = true →
        (r.follow accessors).root.isIterationScoped = true) := by
  have hunder := r.under_follow accessors
  refine ⟨fun h => root_of_under h hunder, fun name h => stepName_of_under h hunder, fun h => ?_⟩
  have hroot : r.root ≠ .other := by
    intro hother
    rw [hother] at h
    cases h
  rwa [root_of_under hroot hunder]

/-- A path with a bracket in front of the first dot. The root is told behind the dot, and the step
is named in front of the bracket. -/
def ofElement : Reference := ⟨"steps.a[*].results"⟩

/-- Accessors with keys that look like other paths, or like none. -/
def astray : List Accessor :=
  [.field "x.output", .each, .index "", .fieldPath "..*.steps.b[0]", .field "[params"]

theorem root_of_follow_astray :
    ofElement.root ≠ .other ∧ ofElement.stepName = some "a" ∧
      (ofElement.follow astray).root = .stepResults ∧
      (ofElement.follow astray).stepName = some "a" ∧
      foreachIndex.root.isIterationScoped = true ∧
      (foreachIndex.follow astray).root.isIterationScoped = true := by
  have hroot : ofElement.root ≠ .other := by decide
  have hname : ofElement.stepName = some "a" := by decide
  have hscoped : foreachIndex.root.isIterationScoped = true := by decide
  obtain ⟨h, h', -⟩ := root_of_follow ofElement astray
  obtain ⟨-, -, h''⟩ := root_of_follow foreachIndex astray
  exact ⟨hroot, hname, (h hroot).trans (by decide), h' "a" hname, hscoped, h'' hscoped⟩

end Reference
end StepGraph
