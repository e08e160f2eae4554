import StepGraph.Proofs.Chain.Trace

/-!
# Failed statements leave no trace

A statement that fails leaves the steps, the names, the schema, the output and the scope as it has
found them (`after_failure`). This holds of every statement of every run, in bodies to any depth,
whatever the chain is that the run starts from, and whether failures inside are ignored or end the
body.
-/

namespace StepGraph
namespace Script

/-- A statement that fails has changed nothing that the chain defines, nor the scope. -/
theorem Executed.agrees_of_failure {entry : Entry} (h : Executed entry) {e : DefinitionError}
    (he : entry.outcome = .error e) :
    entry.after.Agrees entry.before ∧ entry.after.scope = entry.before.scope := by
  cases h with
  | call c call =>
    have hc := Call.effect c call
    change (call.apply c).1 = .error e at he
    rw [he] at hc
    change (call.apply c).2.Agrees c ∧ (call.apply c).2.scope = c.scope
    generalize (call.apply c).2 = d at hc
    cases hc
    exact ⟨.refl c, rfl⟩
  | refused h => exact ⟨.refl _, rfl⟩
  | body hs ht =>
    rw [hs.before_eq]
    exact ⟨hs.agrees_of_error ht.extends he, (hs.extends ht.extends).scope⟩

/-- A failed statement leaves all that the chain defines as it was, and the scope. -/
theorem after_failure (c : Chain) (b : Bindings) (s : Script) {entry : Entry}
    (hr : Recorded entry (s.run c b).log) {e : DefinitionError} (he : entry.outcome = .error e) :
    entry.after.steps = entry.before.steps ∧ entry.after.namer = entry.before.namer ∧
      entry.after.params = entry.before.params ∧ entry.after.output = entry.before.output ∧
      entry.after.scope = entry.before.scope := by
  obtain ⟨ha, hs⟩ := ((run_trace c b s).executed hr).agrees_of_failure he
  exact ⟨ha.steps, ha.namer, ha.params, ha.output, hs⟩

/-- An iteration with two steps and an output, and with a refused iteration that is ignored. -/
def twoStepsInIteration : Script :=
  .iteration (fun _ => .items [])
    (.call (fun _ => .addStep "api_call" []) none .propagate <|
      .iteration (fun _ => .items []) .done none .ignore <|
      .call (fun _ => .defineOutput .null) none .propagate <|
      .call (fun _ => .addStep "api_call" []) none .propagate .done)
    none .propagate .done

/-- The iteration fails when its body has ended, and neither steps nor output are left. -/
theorem after_failure_twoStepsInIteration :
    ∃ entry, Recorded entry (twoStepsInIteration.run {} fun _ => .params).log ∧
      entry.outcome = .error (.iterationStepCount 2) ∧ entry.body.length = 4 ∧
      entry.after.steps = entry.before.steps ∧ entry.after.namer = entry.before.namer ∧
      entry.after.params = entry.before.params ∧ entry.after.output = entry.before.output ∧
      entry.after.scope = entry.before.scope :=
  ⟨_, .here (List.mem_cons_self ..), rfl, rfl,
    after_failure {} _ twoStepsInIteration (.here (List.mem_cons_self ..)) rfl⟩

end Script
end StepGraph
