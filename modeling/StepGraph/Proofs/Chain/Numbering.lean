import StepGraph.Proofs.Chain.Handles

/-!
# The numbers in step names

The first step of a transformation has its name, and the `k`-th one has the suffix `_k`
(`numbered`). The names are given one after the other, to steps that may be dropped again, and a
name that is taken is passed over. Still the names of the steps that stay are numbered in this way
(`names_numbered`), unless a step of another transformation or an explicit name stands in the way.

* `Built`: the steps that calls add one after the other, each in view of those before it.
* `Trace.built`: the calls that stay have built the chain of a run.
-/

namespace StepGraph

namespace Namer

/-- The name of the `k`-th step of a transformation. -/
def numbered (t : String) (k : Nat) : String := if k = 1 then t else suffixed t k

theorem numbered_isPrefix (t : String) (k : Nat) : t.toList <+: (numbered t k).toList := by
  unfold numbered
  split
  · exact List.prefix_rfl
  · simp [suffixed]

/-- Different numbers make different names. -/
theorem numbered_inj {t : String} {m n : Nat} (h : numbered t m = numbered t n) : m = n := by
  unfold numbered at h
  split at h <;> split at h
  · omega
  · exact absurd h.symm (suffixed_ne t n)
  · exact absurd h (suffixed_ne t m)
  · exact suffixed_inj h

/-- If its number is free, the next step of a transformation gets the name with this number. -/
theorem nextName_eq_numbered {n : Namer} {t : String}
    (h : numbered t (n.count t + 1) ∉ n.taken) : n.nextName t = numbered t (n.count t + 1) := by
  unfold nextName
  by_cases hzero : n.count t = 0
  · have hname : numbered t (n.count t + 1) = t := by rw [hzero]; rfl
    rw [hname] at h ⊢
    exact if_pos ⟨hzero, by simpa [isTaken] using h⟩
  · have hname : numbered t (n.count t + 1) = suffixed t (n.count t + 1) :=
      if_neg (by omega)
    rw [hname] at h ⊢
    rw [if_neg fun hn => hzero hn.1, firstFree, if_neg h]

end Namer

namespace Call

/-- The call names its step itself. -/
def isNamed : Call → Bool
  | addNamedStep _ _ _ => true
  | _ => false

theorem name_of_step? {namer : Namer} {scope : Scope} {call : Call} {s : Step}
    (h : call.step? namer scope = some s) (hn : call.isNamed = false) :
    s.name = namer.nextName s.transformation := by
  cases call <;> cases h <;> first | rfl | cases hn

end Call

namespace Script

/-- The statement is a call that names its step itself. -/
def Action.isNamed : Action → Bool
  | .call operation => operation.isNamed
  | _ => false

/-- The statement is a call that has added the step `s` behind `steps`, under names that were those
of these steps. -/
structure Entry.Adds (steps : List Step) (entry : Entry) (s : Step) : Prop where
  before : entry.before.steps = steps
  named : entry.before.Named
  step : ∃ call, entry.action = .call call ∧
    call.step? entry.before.namer entry.before.scope = some s

/-- Calls have added the steps of `after` that are not in `before`, one after the other. -/
inductive Built : (before : List Step) → List Entry → (after : List Step) → Prop
  | nil (steps : List Step) : Built steps [] steps
  | cons {steps after : List Step} {entry : Entry} {added : List Entry} {s : Step} :
      entry.Adds steps s → Built (steps ++ [s]) added after → Built steps (entry :: added) after

namespace Built

variable {steps steps' steps'' : List Step} {added added' : List Entry}

theorem append (h : Built steps added steps') (h' : Built steps' added' steps'') :
    Built steps (added ++ added') steps'' := by
  induction h with
  | nil => exact h'
  | cons head _ ih => exact .cons head (ih h')

theorem isPrefix (h : Built steps added steps') : steps <+: steps' := by
  induction h with
  | nil => exact List.prefix_rfl
  | cons _ _ ih => exact (List.prefix_append _ _).trans ih

theorem length_eq (h : Built steps added steps') :
    steps'.length = steps.length + added.length := by
  induction h with
  | nil => rfl
  | cons _ _ ih =>
    simp only [List.length_append, List.length_cons, List.length_nil] at ih ⊢
    omega

/-- The calls have added the steps at their positions, each behind those before it. -/
theorem adds (h : Built steps added steps') {i : Nat} {entry : Entry}
    (hi : added[i]? = some entry) : ∃ s, steps'[steps.length + i]? = some s ∧
      entry.Adds (steps'.take (steps.length + i)) s := by
  induction h generalizing i with
  | nil => cases hi
  | @cons steps after entry' added s head tail ih =>
    cases i with
    | zero =>
      cases hi
      obtain ⟨rest, rfl⟩ := tail.isPrefix
      refine ⟨s, by simp, ?_⟩
      rw [Nat.add_zero, List.append_assoc, List.take_left' rfl]
      exact head
    | succ i =>
      obtain ⟨s', hs', hadds⟩ := ih hi
      have hlength : (steps ++ [s]).length + i = steps.length + (i + 1) := by
        simp only [List.length_append, List.length_cons, List.length_nil]
        omega
      rw [hlength] at hs' hadds
      exact ⟨s', hs', hadds⟩

end Built

variable {c d : Chain}

theorem callEntry_built (h : c.Named) (call : Call) :
    Built c.steps (callEntry c call).additions (callEntry c call).after.steps := by
  obtain ⟨s, hs, hadded, hgives⟩ | ⟨hnone, hsteps⟩ := callEntry_additions c call
  · rw [hadded, hgives.steps]
    exact .cons ⟨rfl, h, call, rfl, hs⟩ (.nil _)
  · rw [hnone, hsteps]
    exact .nil _

/-- The calls that stay have built the chain of a run. -/
theorem Trace.built {log : List Entry} (ht : Trace c log d) (h : c.Named) :
    Built c.steps (additions log) d.steps := by
  induction ht with
  | done c =>
    rw [additions]
    exact .nil _
  | call call _ ih =>
    rw [additions]
    exact (callEntry_built h call).append (ih (Chain.named_invariant.call call h))
  | @refused c d log action e _ _ ih =>
    have he : (refusedEntry c action e).outcome = .error e := rfl
    rw [additions, Entry.additions_of_error he]
    exact ih h
  | @body c inner d ran entry log hs ht _ ihBody ih =>
    have hinner := h.of_agrees hs.inner_agrees
    have hran := (ht.invariant Chain.named_invariant hinner).1
    have hafter := (hs.closes ht.extends).preserves Chain.Named.of_agrees h hran
    rw [additions]
    refine .append ?_ (ih hafter)
    cases ho : entry.outcome with
    | error e =>
      rw [Entry.additions_of_error ho, (hs.agrees_of_error ht.extends ho).steps]
      exact .nil _
    | ok r? =>
      rw [hs.additions_eq ho, (hs.agrees_of_ok ht.extends ho).steps, ← hs.inner_agrees.steps]
      exact ihBody hinner

/-! ## Numbered names -/

/-- How many steps of the transformation are in the list. -/
def countOf (t : String) (steps : List Step) : Nat := steps.countP (·.transformation == t)

/-- A step of the transformation counts behind its position. -/
theorem countOf_take_lt {t : String} {steps : List Step} {i j : Nat} {s : Step} (hij : i < j)
    (hs : steps[i]? = some s) (ht : s.transformation = t) :
    countOf t (steps.take i) < countOf t (steps.take j) := by
  have hsucc : steps.take (i + 1) = steps.take i ++ [s] := by
    rw [List.take_add_one, hs]
    rfl
  have hone : countOf t (steps.take (i + 1)) = countOf t (steps.take i) + 1 := by
    rw [countOf, hsucc, List.countP_append, List.countP_singleton, if_pos (by simpa using ht)]
    rfl
  have hle : countOf t (steps.take (i + 1)) ≤ countOf t (steps.take j) :=
    (List.take_sublist_take_left hij).countP_le
  omega

/-- No step of another transformation and no step with an explicit name has one of the numbered
names of `t`. -/
def LeavesNumbers (t : String) (added : List Entry) (steps : List Step) : Prop :=
  ∀ (i : Nat) (entry : Entry) (step : Step), added[i]? = some entry → steps[i]? = some step →
    step.transformation ≠ t ∨ entry.action.isNamed = true →
      ∀ k, 0 < k → step.name ≠ Namer.numbered t k

/-- Every step of `t` that has got its name from the namer is numbered by its place among the steps
of `t`, those with explicit names included. -/
def TakesNumbers (t : String) (added : List Entry) (steps : List Step) : Prop :=
  ∀ (i : Nat) (entry : Entry) (step : Step), added[i]? = some entry → steps[i]? = some step →
    step.transformation = t → entry.action.isNamed = false →
      step.name = Namer.numbered t (countOf t (steps.take i) + 1)

/-- As long as the steps before a position are numbered, none of them has the next number. -/
theorem Built.numbered_not_mem {t : String} {added : List Entry} {steps : List Step}
    (h : Built [] added steps) (hleaves : LeavesNumbers t added steps) {i : Nat}
    (hnumbers : ∀ j < i, ∀ (entry : Entry) (step : Step), added[j]? = some entry →
      steps[j]? = some step → step.transformation = t → entry.action.isNamed = false →
        step.name = Namer.numbered t (countOf t (steps.take j) + 1)) :
    Namer.numbered t (countOf t (steps.take i) + 1) ∉ (steps.take i).map (·.name) := by
  intro hmem
  obtain ⟨step, hstep, hsame⟩ := List.mem_map.mp hmem
  obtain ⟨j, hj⟩ := List.mem_iff_getElem?.mp hstep
  rw [List.getElem?_take] at hj
  split at hj
  · rename_i hji
    have hlength := h.length_eq
    obtain ⟨hlt, -⟩ := List.getElem?_eq_some_iff.mp hj
    rw [hlength, List.length_nil, Nat.zero_add] at hlt
    have hentry := List.getElem?_eq_getElem hlt
    by_cases hother : step.transformation ≠ t ∨ (added[j]).action.isNamed = true
    · exact hleaves j _ step hentry hj hother _ (Nat.succ_pos _) hsame
    · rw [not_or, not_not, Bool.not_eq_true] at hother
      have hnumber := hnumbers j hji _ step hentry hj hother.1 hother.2
      have hcount := Namer.numbered_inj (hnumber.symm.trans hsame)
      have hless := countOf_take_lt hji hj hother.1
      omega
  · cases hj

theorem Built.takesNumbers {t : String} {added : List Entry} {steps : List Step}
    (h : Built [] added steps) (hleaves : LeavesNumbers t added steps) :
    TakesNumbers t added steps := by
  intro i
  -- The name of a step is chosen among those before it, which are numbered by induction.
  induction i using Nat.strongRecOn with
  | ind i ih =>
    intro entry step hentry hstep ht hnamed
    obtain ⟨s, hs, hadds⟩ := h.adds hentry
    rw [List.length_nil, Nat.zero_add] at hs hadds
    rw [hstep] at hs
    cases hs
    obtain ⟨call, haction, hcall⟩ := hadds.step
    have hcount : entry.before.namer.count t = countOf t (steps.take i) := by
      rw [hadds.named.count, hadds.before, countOf]
    have hname : step.name = entry.before.namer.nextName t := by
      rw [Call.name_of_step? hcall (by rwa [haction] at hnamed), ht]
    have hfree : Namer.numbered t (entry.before.namer.count t + 1) ∉ entry.before.namer.taken := by
      rw [hadds.named.taken, hadds.before, hcount]
      exact h.numbered_not_mem hleaves ih
    rw [hname, ← hcount]
    exact Namer.nextName_eq_numbered hfree

/-- The documented numbering of steps. If neither other transformations nor explicit names take the
numbered names of `t`, the steps of `t` that have got their names from the namer are numbered by
their places, whatever has failed or has been dropped between them. Every step is that of the call
at the same place of `additions`. -/
theorem names_numbered {start : Chain} (hstart : Initial start) (b : Bindings) (s : Script)
    (t : String)
    (hleaves : LeavesNumbers t (additions (s.run start b).log) (s.run start b).chain.steps) :
    List.Forall₂ (fun entry step => Entry.Gives entry step step.result)
        (additions (s.run start b).log) (s.run start b).chain.steps ∧
      TakesNumbers t (additions (s.run start b).log) (s.run start b).chain.steps := by
  have ht := run_trace start b s
  have hempty : start.steps = [] := by cases hstart <;> rfl
  have hbuilt := ht.built (Chain.named_of_initial hstart)
  obtain ⟨new, hnew, hadds⟩ := ht.accounts
  rw [hempty] at hbuilt hnew
  refine ⟨?_, hbuilt.takesNumbers hleaves⟩
  rw [hnew]
  exact hadds.imp fun _ _ h => h.gives

/-- A name that does not begin with `t` is none of the numbered ones. -/
theorem leavesNumbers_of_not_prefix {t : String} {added : List Entry} {steps : List Step}
    (h : ∀ p ∈ added.zip steps, p.2.transformation ≠ t ∨ p.1.action.isNamed = true →
      ¬t.toList <+: p.2.name.toList) : LeavesNumbers t added steps := by
  intro i entry step hentry hstep hother k _ hname
  have hmem : (entry, step) ∈ added.zip steps :=
    List.mem_of_getElem? (List.getElem?_zip_eq_some.mpr ⟨hentry, hstep⟩)
  exact h _ hmem hother (hname ▸ Namer.numbered_isPrefix t k)

/-- Steps of one transformation with an explicit name between them, after two that are dropped and
with one that is refused. -/
def counted : Script :=
  .iteration (fun _ => .items [])
    (.call (fun _ => .addStep "api_call" []) none .propagate <|
      .call (fun _ => .addStep "api_call" []) none .propagate .done)
    none .ignore <|
  .call (fun _ => .addStep "api_call" []) none .propagate <|
  .call (fun _ => .addNamedStep "custom" "api_call" []) none .propagate <|
  .call (fun _ => .embedCode [] "() => 1") none .propagate <|
  .call (fun _ => .addNamedStep "custom" "api_call" []) none .ignore <|
  .call (fun _ => .addStep "api_call" []) none .propagate .done

/-- The third step of the transformation has the number three. -/
theorem names_numbered_counted :
    LeavesNumbers "api_call" (additions (counted.run {} fun _ => .params).log)
        (counted.run {} fun _ => .params).chain.steps ∧
      (counted.run {} fun _ => .params).chain.steps.map (·.name) =
        ["api_call", "custom", "js_code_transformation", "api_call_3"] ∧
      TakesNumbers "api_call" (additions (counted.run {} fun _ => .params).log)
        (counted.run {} fun _ => .params).chain.steps := by
  have hleaves : LeavesNumbers "api_call" (additions (counted.run {} fun _ => .params).log)
      (counted.run {} fun _ => .params).chain.steps :=
    leavesNumbers_of_not_prefix (by decide +kernel)
  exact ⟨hleaves, by decide +kernel, (names_numbered .new _ counted "api_call" hleaves).2⟩

end Script
end StepGraph
