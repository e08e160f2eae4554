import StepGraph.Proofs.Chain.Trace

/-!
# Conditions and sources have lexical scope

The scope of a chain is a pair of slots that bodies fill and clear. `lexicalSteps` reads the steps
off a log without these slots: the scope goes down into bodies as an argument, a failed statement
adds nothing, and a call that has succeeded adds its step.

* `Trace.steps_eq`: the steps of a run are those of its log.
* `steps_of_new`: for a new chain, with both slots empty again after every statement outside of
  bodies.
-/

namespace StepGraph
namespace Script

mutual

/-- The steps that stay of a statement that stands in a scope. -/
def Entry.lexicalSteps (scope : Scope) : Entry → List Step
  | ⟨_, _, .error _, _, _⟩ => []
  | ⟨.call operation, before, .ok _, _, _⟩ => (operation.step? before.namer scope).toList
  | ⟨.condition active, _, .ok _, _, body⟩ =>
    lexicalSteps { scope with condition := some active } body
  | ⟨.iteration active, _, .ok _, _, body⟩ => lexicalSteps { scope with source := some active } body

/-- The steps that stay of a log whose statements stand in a scope, in order. -/
def lexicalSteps (scope : Scope) : List Entry → List Step
  | [] => []
  | entry :: log => entry.lexicalSteps scope ++ lexicalSteps scope log

end

theorem Entry.lexicalSteps_of_error {entry : Entry} {e : DefinitionError} (scope : Scope)
    (h : entry.outcome = .error e) : entry.lexicalSteps scope = [] := by
  obtain ⟨action, before, outcome, after, body⟩ := entry
  cases h
  rw [Entry.lexicalSteps]

/-- A statement with a body adds what its body adds. -/
theorem Surrounds.lexicalSteps_eq {c inner : Chain} {ran : Run} {entry : Entry}
    {r : Option Reference}
    (h : Surrounds c inner ran entry) (ho : entry.outcome = .ok r) :
    entry.lexicalSteps c.scope = lexicalSteps inner.scope ran.log := by
  rw [← h.body_eq, h.inner_eq]
  have hcall := h.action_ne_call
  obtain ⟨action, before, outcome, after, body⟩ := entry
  cases ho
  cases action with
  | call call => exact absurd rfl (hcall call)
  | condition active => rw [Entry.lexicalSteps]; rfl
  | iteration active => rw [Entry.lexicalSteps]; rfl

/-- A call adds the step that it asks for, if it succeeds. -/
theorem callEntry_steps (c : Chain) (call : Call) :
    (callEntry c call).after.steps = c.steps ++ (callEntry c call).lexicalSteps c.scope := by
  have h := Call.effect c call
  unfold callEntry
  generalize call.apply c = result at h
  obtain ⟨outcome, after⟩ := result
  cases h with
  | refused e => simp [Entry.lexicalSteps]
  | silent d hs ha hscope => simpa [Entry.lexicalSteps, hs] using ha.steps
  | params schema hs hp => simp [Entry.lexicalSteps, hs]
  | output o hs ho => simp [Entry.lexicalSteps, hs]
  | step s hs hn hr => simp [Entry.lexicalSteps, hs]

/-- The steps of a run are those of its log, behind the steps that were there. -/
theorem Trace.steps_eq {c d : Chain} {log : List Entry} (h : Trace c log d) :
    d.steps = c.steps ++ lexicalSteps c.scope log := by
  induction h with
  | done c => simp [lexicalSteps]
  | @call c d log call _ ih =>
    have hscope : (callEntry c call).after.scope = c.scope := (Call.effect c call).extends.scope
    rw [ih, callEntry_steps, hscope, lexicalSteps, List.append_assoc]
  | @refused c d log action e _ _ ih =>
    have he : (refusedEntry c action e).outcome = .error e := rfl
    rw [ih, lexicalSteps, Entry.lexicalSteps_of_error _ he, List.nil_append]
  | @body c inner d ran entry log hs ht _ ihBody ih =>
    rw [ih, (hs.extends ht.extends).scope, lexicalSteps, ← List.append_assoc]
    congr 1
    cases ho : entry.outcome with
    | ok r =>
      rw [(hs.agrees_of_ok ht.extends ho).steps, ihBody, hs.inner_agrees.steps,
        hs.lexicalSteps_eq ho]
    | error e =>
      rw [(hs.agrees_of_error ht.extends ho).steps, Entry.lexicalSteps_of_error _ ho,
        List.append_nil]

/-- A script on a new chain leaves the steps of its log with their lexical scopes. Every statement
leaves the scope in which it stands. -/
theorem steps_of_new (b : Bindings) (s : Script) :
    (s.run {} b).chain.steps = lexicalSteps {} (s.run {} b).log ∧
      (∀ entry, Recorded entry (s.run {} b).log → entry.after.scope = entry.before.scope) ∧
      (s.run {} b).chain.scope = {} := by
  have ht := run_trace {} b s
  refine ⟨?_, fun entry hr => (ht.executed hr).extends.scope, ht.extends.scope⟩
  rw [ht.steps_eq]
  rfl

/-- An iteration under a condition, with a refused condition in it, and then an iteration that fails
because it has two steps. -/
def nestedScopes : Script :=
  .condition (fun _ => .literal true)
    (.iteration (fun _ => .items [])
      (.condition (fun _ => .null) .done none .ignore <|
        .call (fun _ => .addStep "inner" []) none .propagate .done)
      none .propagate <|
      .call (fun _ => .addStep "outer" []) none .propagate .done)
    none .propagate <|
    .iteration (fun _ => .items [])
      (.call (fun _ => .addStep "first" []) none .propagate <|
        .call (fun _ => .addStep "second" []) none .propagate .done)
      none .ignore <|
    .call (fun _ => .addStep "last" []) none .propagate .done

/-- The steps of the nested bodies, and the scope behind the iteration that fails. -/
theorem steps_of_nestedScopes :
    (nestedScopes.run {} fun _ => .params).chain.steps = [
      ⟨"inner", "inner", [], some (.literal true), some (.items [])⟩,
      ⟨"outer", "outer", [], some (.literal true), none⟩, ⟨"last", "last", [], none, none⟩] ∧
    ∃ entry, Recorded entry (nestedScopes.run {} fun _ => .params).log ∧
      entry.outcome = .error (.iterationStepCount 2) ∧ entry.after.scope = entry.before.scope := by
  obtain ⟨hsteps, hscope, -⟩ := steps_of_new (fun _ => .params) nestedScopes
  have hsecond : Recorded _ (nestedScopes.run {} fun _ => .params).log :=
    .here (List.mem_cons_of_mem _ (List.mem_cons_self ..))
  exact ⟨hsteps.trans rfl, _, hsecond, rfl, hscope _ hsecond⟩

end Script
end StepGraph
