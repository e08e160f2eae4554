import StepGraph.Proofs.Chain.Handles
import StepGraph.Proofs.Reference.Attribution

/-!
# Which step a handle is attributed to

A statement that adds a step gives a reference to its result, and more references are reached from
it. All of them tell a step and a root, which depend on nothing but the name of the step.

* `Step.PlainName`: the name can be cut out of a path again.
* `attribution_of_result`: a reference that is reached from the result of a step is attributed to
  this step if its name is plain, and to none or to another one if it is not.
-/

namespace StepGraph

namespace Step

/-- The name of a step is not empty and has no separator. -/
def PlainName (s : Step) : Prop :=
  s.name.toList ≠ [] ∧ ∀ c ∈ s.name.toList, Root.isSeparator c = false

instance (s : Step) : Decidable s.PlainName :=
  have := List.decidableBAll (fun c => Root.isSeparator c = false) s.name.toList
  inferInstanceAs (Decidable (_ ∧ _))

/-- The root of the result of the step. -/
def resultRoot (s : Step) : Root := if s.isIterated then .stepResults else .stepOutput

variable {s : Step} {r : Reference}

theorem PlainName.dot_not_mem (h : s.PlainName) : '.' ∉ s.name.toList := by
  intro hdot
  have := h.2 '.' hdot
  cases this

/-- What is reached from the result of a step starts with it. -/
theorem ofResult_of_reachedFrom (h : s.result.ReachedFrom r) :
    r.OfResult s.resultRoot s.name.toList := by
  obtain ⟨rest, hpath, hrest⟩ := h.under
  unfold result resultRoot at *
  split at hpath
  · rename_i hs
    refine ⟨"results".toList, rest, ?_, ?_, hrest⟩
    · rw [if_pos hs]
      exact .results
    · rw [hpath]
      simp [Reference.stepResults]
  · rename_i hs
    refine ⟨"output".toList, rest, ?_, ?_, hrest⟩
    · rw [if_neg hs]
      exact .output
    · rw [hpath]
      simp [Reference.stepOutput]

theorem stepName_of_reachedFrom (h : s.result.ReachedFrom r) :
    r.stepName = (Reference.nameBefore s.name.toList).map String.ofList :=
  Reference.stepName_of_result (ofResult_of_reachedFrom h)

theorem root_of_reachedFrom (h : s.result.ReachedFrom r) :
    r.root = Root.ofResult s.resultRoot s.name.toList :=
  Reference.root_of_result (ofResult_of_reachedFrom h)

/-- The step is told if its name is plain, and only then. -/
theorem stepName_eq_iff (h : s.result.ReachedFrom r) : r.stepName = some s.name ↔ s.PlainName := by
  rw [stepName_of_reachedFrom h]
  refine Iff.trans ?_ Reference.nameBefore_eq_self_iff
  constructor
  · intro hname
    obtain ⟨cs, hcs, hs⟩ := Option.map_eq_some_iff.mp hname
    rw [hcs, ← hs, String.toList_ofList]
  · intro hname
    rw [hname, Option.map_some, String.ofList_toList]

/-- A plain name leaves the root of the result as it is. -/
theorem PlainName.root_eq (hs : s.PlainName) (h : s.result.ReachedFrom r) :
    r.root = s.resultRoot := by
  rw [root_of_reachedFrom h, Root.ofResult_eq hs.1 hs.dot_not_mem]

end Step

namespace Script

/-- The statement stands in an iteration, or is one. -/
def Entry.iterates (entry : Entry) : Bool :=
  match entry.action with
  | .iteration _ => true
  | _ => entry.before.scope.source.isSome

/-- The root of the result of a step that the statement adds. -/
def Entry.resultRoot (entry : Entry) : Root :=
  if entry.iterates then .stepResults else .stepOutput

/-- A statement that adds a step gives the reference to its result. The step is iterated if the
statement stands in an iteration or is one. -/
theorem Executed.gives_result {entry : Entry} (h : Executed entry) (ha : entry.action.adds = true)
    {r? : Option Reference} (ho : entry.outcome = .ok r?) :
    ∃ s, entry.Gives s s.result ∧ s.isIterated = entry.iterates := by
  cases h with
  | refused hr => cases ho
  | call c operation =>
    obtain ⟨s, hs, -, hgives⟩ | ⟨hnone, -⟩ := callEntry_additions c operation
    · refine ⟨s, hgives, ?_⟩
      rw [Step.isIterated, Call.source_of_step? hs]
      rfl
    · rw [Entry.additions_of_adds rfl ha ho] at hnone
      cases hnone
  | body hs ht =>
    have hx := Executed.body hs ht
    cases hs with
    | condition hc => cases ha
    | iteration hc =>
      obtain ⟨inner, s, -, -, hgives⟩ := hx.iteration_gives rfl ho
      obtain ⟨r, hr, hresult⟩ := map_eq_ok.mp hgives.outcome
      obtain ⟨-, ⟨last, -, rfl⟩, -⟩ := Chain.leaveIteration_eq_ok hr
      refine ⟨s, hgives, ?_⟩
      -- The reference is one to results, which an output is not.
      by_contra hs
      have houtput : s.result = .stepOutput s.name :=
        Step.result_eq_stepOutput_iff.mpr (Bool.eq_false_iff.mpr hs)
      rw [houtput] at hresult
      exact Reference.stepResults_ne_stepOutput _ _ (Option.some.inj hresult)

/-- What a statement that adds a step gives, and all that is reached from it, tells the beginning of
the name of the step, and a root that follows from the name. So it is attributed to the step and to
what its result is if and only if the name is plain. -/
theorem attribution_of_result (c : Chain) (b : Bindings) (s : Script) {entry : Entry}
    (hr : Recorded entry (s.run c b).log) (ha : entry.action.adds = true) {r? : Option Reference}
    (ho : entry.outcome = .ok r?) :
    ∃ step handle, entry.Gives step handle ∧ ∀ r, handle.ReachedFrom r →
      r.stepName = (Reference.nameBefore step.name.toList).map String.ofList ∧
        r.root = Root.ofResult entry.resultRoot step.name.toList ∧
          (r.stepName = some step.name ↔ step.PlainName) ∧
            (step.PlainName → r.root = entry.resultRoot) := by
  obtain ⟨step, hgives, hiterated⟩ := ((run_trace c b s).executed hr).gives_result ha ho
  have hroot : entry.resultRoot = step.resultRoot := by
    rw [Entry.resultRoot, Step.resultRoot, hiterated]
  refine ⟨step, step.result, hgives, fun r h => ?_⟩
  rw [hroot]
  exact ⟨Step.stepName_of_reachedFrom h, Step.root_of_reachedFrom h, Step.stepName_eq_iff h,
    fun hs => hs.root_eq h⟩

/-- The handle to an iterated step, and what is reached from it, is attributed to this step. -/
theorem attribution_of_namedAgain :
    ∃ entry step handle, Recorded entry (namedAgain.run {} fun _ => .params).log ∧
      entry.Gives step handle ∧ step.name = "each_page" ∧
      (handle.each.field "a.b[0]").stepName = some "each_page" ∧
      (handle.each.field "a.b[0]").root = .stepResults := by
  have hr : Recorded _ (namedAgain.run {} fun _ => .params).log :=
    .inside (List.mem_cons_of_mem _ (List.mem_cons_of_mem _ (List.mem_cons_self ..)))
      (.here (List.mem_cons_self ..))
  obtain ⟨step, handle, hgives, h⟩ := attribution_of_result {} _ namedAgain hr rfl rfl
  have hstep : step.name = "each_page" := by
    have hlast := congrArg List.getLast? hgives.steps
    rw [List.getLast?_concat] at hlast
    cases hlast
    rfl
  have hplain : step.PlainName := by
    rw [Step.PlainName, hstep]
    simp [Root.isSeparator]
  obtain ⟨-, -, hname, hroot⟩ := h (handle.each.field "a.b[0]") ⟨[.each, .field "a.b[0]"], rfl⟩
  refine ⟨_, step, handle, hr, hgives, hstep, ?_, hroot hplain⟩
  rw [hname.mpr hplain, hstep]

/-- A step whose name starts with the name of the step before it. -/
def dottedName : Script :=
  .call (fun _ => .addStep "fetch" []) none .propagate <|
    .call (fun _ => .addNamedStep "fetch.raw" "fetch" []) none .propagate .done

/-- The handle to `fetch.raw`, and what is reached from it, is attributed to `fetch`. -/
theorem stepName_of_dottedName :
    ∃ entry step handle, Recorded entry (dottedName.run {} fun _ => .params).log ∧
      entry.action = .call (.addNamedStep "fetch.raw" "fetch" []) ∧ entry.Gives step handle ∧
      step.name = "fetch.raw" ∧ (handle.field "text").stepName = some "fetch" ∧
      (handle.field "text").root = .other ∧
      ∃ other ∈ (dottedName.run {} fun _ => .params).chain.steps, other.name = "fetch" :=
  ⟨_, ⟨"fetch.raw", "fetch", [], none, none⟩, .stepOutput "fetch.raw",
    .here (List.mem_cons_of_mem _ (List.mem_cons_self ..)), rfl, ⟨rfl, rfl⟩, rfl, by decide,
    by decide, _, List.mem_cons_self .., rfl⟩

end Script
end StepGraph
