import Mathlib.Data.List.Forall2
import StepGraph.Proofs.Chain.Naming

/-!
# Handles agree with the compiled graph

A call that adds a step gives a reference to its result, an iteration gives that of its step, and
the output of a graph falls back on the result of the last step. Whether a result is a list is
decided in three places: when the step is added, when the iteration is left and when the chain is
compiled.

* `additions`: the calls of a log whose steps stay. Each of them has added one step of the chain, in
  order (`Trace.accounts`).
* `Executed.iteration_gives`: an iteration gives the reference of the only call that stays in it.
* `handles_of_compile`: what the graph has is what the references say.
-/

namespace StepGraph

/-- Results are not an output. -/
theorem Reference.stepResults_ne_stepOutput (m n : String) : stepResults m ≠ stepOutput n := by
  intro h
  have hresults : (stepResults m).path.toList.getLast? = some 's' := by
    rw [stepResults, String.toList_append, List.getLast?_append]
    rfl
  have houtput : (stepOutput n).path.toList.getLast? = some 't' := by
    rw [stepOutput, String.toList_append, List.getLast?_append]
    rfl
  rw [h, houtput] at hresults
  cases hresults

theorem Step.result_eq_stepResults_iff {s : Step} :
    s.result = .stepResults s.name ↔ s.isIterated = true := by
  unfold result
  split
  · rename_i h
    exact iff_of_true rfl h
  · rename_i h
    exact iff_of_false (Reference.stepResults_ne_stepOutput s.name s.name).symm h

theorem Step.result_eq_stepOutput_iff {s : Step} :
    s.result = .stepOutput s.name ↔ s.isIterated = false := by
  unfold result
  split
  · rename_i h
    exact iff_of_false (Reference.stepResults_ne_stepOutput s.name s.name) (by simp [h])
  · rename_i h
    exact iff_of_true rfl (by simpa using h)

namespace Call

/-- The call adds a step if it succeeds. -/
def adds : Call → Bool
  | addStep _ _ | addNamedStep _ _ _ | embedCode _ _ => true
  | _ => false

theorem isSome_step? (namer : Namer) (scope : Scope) (call : Call) :
    (call.step? namer scope).isSome = call.adds := by
  cases call <;> rfl

theorem source_of_step? {namer : Namer} {scope : Scope} {call : Call} {s : Step}
    (h : call.step? namer scope = some s) : s.source = scope.source := by
  cases call <;> cases h <;> rfl

end Call

namespace Script

mutual

/-- The calls of a statement that have added a step which stays. A statement that fails drops the
steps of its body. -/
def Entry.additions : Entry → List Entry
  | ⟨_, _, .error _, _, _⟩ => []
  | ⟨.call operation, before, .ok r?, after, body⟩ =>
    if operation.adds then [⟨.call operation, before, .ok r?, after, body⟩] else []
  | ⟨.condition _, _, .ok _, _, body⟩ => Script.additions body
  | ⟨.iteration _, _, .ok _, _, body⟩ => Script.additions body

/-- The calls of a log that have added a step which stays, in order. -/
def additions : List Entry → List Entry
  | [] => []
  | entry :: log => entry.additions ++ additions log

end

/-- The statement has added the step and has given the reference. -/
structure Entry.Gives (entry : Entry) (s : Step) (r : Reference) : Prop where
  outcome : entry.outcome = .ok (some r)
  steps : entry.after.steps = entry.before.steps ++ [s]

/-- The call stands in the scope or in one inside of it. It has added the step, which is iterated if
there is something to iterate over, and has given the reference to its result. -/
structure Entry.AddsIn (scope : Scope) (entry : Entry) (s : Step) : Prop where
  gives : entry.Gives s s.result
  iterated : scope.source.isSome = true → s.isIterated = true

/-- The calls have added the steps that `d` has more than `c`. -/
def Accounts (c : Chain) (added : List Entry) (d : Chain) : Prop :=
  ∃ new, d.steps = c.steps ++ new ∧ List.Forall₂ (Entry.AddsIn c.scope) added new

variable {c d e : Chain}

theorem Accounts.nil (h : d.steps = c.steps) : Accounts c [] d :=
  ⟨[], by rw [h, List.append_nil], .nil⟩

theorem Accounts.append {added added' : List Entry} (h : Accounts c added d)
    (hscope : d.scope = c.scope) (h' : Accounts d added' e) : Accounts c (added ++ added') e := by
  obtain ⟨new, hd, hadds⟩ := h
  obtain ⟨new', he, hadds'⟩ := h'
  rw [hscope] at hadds'
  exact ⟨new ++ new', by rw [he, hd, List.append_assoc], List.rel_append hadds hadds'⟩

theorem Entry.additions_of_error {entry : Entry} {e : DefinitionError}
    (h : entry.outcome = .error e) : entry.additions = [] := by
  obtain ⟨action, before, outcome, after, body⟩ := entry
  cases h
  rw [Entry.additions]

theorem Entry.additions_of_adds {entry : Entry} {operation : Call} {r? : Option Reference}
    (ha : entry.action = .call operation) (hadds : operation.adds = true)
    (ho : entry.outcome = .ok r?) : entry.additions = [entry] := by
  obtain ⟨action, before, outcome, after, body⟩ := entry
  cases ha
  cases ho
  rw [Entry.additions, if_pos hadds]

/-- A call has added the step that it asks for, or it adds none. -/
theorem callEntry_additions (c : Chain) (call : Call) :
    (∃ s, call.step? c.namer c.scope = some s ∧ (callEntry c call).additions = [callEntry c call] ∧
        (callEntry c call).Gives s s.result) ∨
      (callEntry c call).additions = [] ∧ (callEntry c call).after.steps = c.steps := by
  have h := Call.effect c call
  have hadds := call.isSome_step? c.namer c.scope
  unfold callEntry
  generalize call.apply c = result at h
  obtain ⟨outcome, after⟩ := result
  cases h with
  | refused e =>
    rw [Entry.additions]
    exact .inr ⟨rfl, rfl⟩
  | silent d hs ha hscope =>
    rw [Entry.additions, if_neg (by simp [← hadds, hs])]
    exact .inr ⟨rfl, ha.steps⟩
  | params schema hs hp =>
    rw [Entry.additions, if_neg (by simp [← hadds, hs])]
    exact .inr ⟨rfl, rfl⟩
  | output o hs ho =>
    rw [Entry.additions, if_neg (by simp [← hadds, hs])]
    exact .inr ⟨rfl, rfl⟩
  | step s hs hn hr =>
    rw [Entry.additions, if_pos (by simp [← hadds, hs])]
    exact .inl ⟨s, hs, rfl, ⟨rfl, rfl⟩⟩

/-- A call accounts for the step that it adds, if it succeeds. -/
theorem callEntry_accounts (c : Chain) (call : Call) :
    Accounts c (callEntry c call).additions (callEntry c call).after := by
  obtain ⟨s, hs, hadded, hgives⟩ | ⟨hnone, hsteps⟩ := callEntry_additions c call
  · rw [hadded]
    refine ⟨[s], hgives.steps, .cons ⟨hgives, fun hsource => ?_⟩ .nil⟩
    rw [Step.isIterated, Call.source_of_step? hs]
    exact hsource
  · rw [hnone]
    exact .nil hsteps

namespace Surrounds

variable {inner : Chain} {ran : Run} {entry : Entry}

/-- What a body adds stays if the statement around it succeeds. -/
theorem additions_eq {r? : Option Reference} (h : Surrounds c inner ran entry)
    (ho : entry.outcome = .ok r?) : entry.additions = additions ran.log := by
  rw [← h.body_eq]
  have hcall := h.action_ne_call
  obtain ⟨action, before, outcome, after, body⟩ := entry
  cases ho
  cases action with
  | call call => exact absurd rfl (hcall call)
  | condition active => rw [Entry.additions]
  | iteration active => rw [Entry.additions]

/-- Something to iterate over stays in the body. -/
theorem source_inner (h : Surrounds c inner ran entry) (hc : c.scope.source.isSome = true) :
    inner.scope.source.isSome = true := by
  rw [h.inner_eq]
  cases entry.action with
  | call call => exact hc
  | condition active => exact hc
  | iteration active => rfl

theorem accounts (h : Surrounds c inner ran entry) (hx : ran.chain.Extends inner)
    (hran : Accounts inner (additions ran.log) ran.chain) :
    Accounts c entry.additions entry.after := by
  cases ho : entry.outcome with
  | error e =>
    rw [Entry.additions_of_error ho]
    exact .nil (h.agrees_of_error hx ho).steps
  | ok r? =>
    obtain ⟨new, hnew, hadds⟩ := hran
    rw [h.additions_eq ho]
    refine ⟨new, ?_, hadds.imp fun entry s hs => ?_⟩
    · rw [(h.agrees_of_ok hx ho).steps, hnew, h.inner_agrees.steps]
    · exact ⟨hs.gives, fun hsource => hs.iterated (h.source_inner hsource)⟩

end Surrounds

/-- The calls that stay account for the steps of a run. -/
theorem Trace.accounts {log : List Entry} (h : Trace c log d) : Accounts c (additions log) d := by
  induction h with
  | done c =>
    rw [additions]
    exact .nil rfl
  | @call c d log call _ ih =>
    rw [additions]
    exact (callEntry_accounts c call).append (Call.effect c call).extends.scope ih
  | @refused c d log action e _ _ ih =>
    have he : (refusedEntry c action e).outcome = .error e := rfl
    rw [additions, Entry.additions_of_error he]
    exact ih
  | body hs ht _ ihBody ih =>
    rw [additions]
    exact (hs.accounts ht.extends ihBody).append (hs.extends ht.extends).scope ih

end Script

/-! ## Iterations -/

/-- An iteration that is left without an error has one step more, and gives its results. -/
theorem Chain.leaveIteration_eq_ok {α : Type} {d entry : Chain} {result : Except DefinitionError α}
    {r : Reference} (h : (d.leaveIteration entry result).1 = .ok r) :
    d.steps.length - entry.steps.length = 1 ∧
      (∃ s, d.steps.getLast? = some s ∧ r = .stepResults s.name) ∧
      (d.leaveIteration entry result).2.steps = d.steps := by
  unfold leaveIteration at h ⊢
  cases result with
  | error e => cases h
  | ok a =>
    simp only at h ⊢
    split at h
    · rename_i hone
      rw [if_pos hone]
      split at h
      · rename_i s hs
        cases h
        exact ⟨hone, ⟨s, hs, rfl⟩, rfl⟩
      · cases h
    · cases h

namespace Script

/-- An iteration gives the reference of the only call that stays in its body. -/
theorem Executed.iteration_gives {entry : Entry} (h : Executed entry) {active : Source}
    (ha : entry.action = .iteration active) {r? : Option Reference} (ho : entry.outcome = .ok r?) :
    ∃ inner s, additions entry.body = [inner] ∧ inner.Gives s s.result ∧
      entry.Gives s s.result := by
  cases h with
  | call c call => cases ha
  | refused hr => cases ho
  | @body c inner ran entry hs ht =>
    cases hs with
    | condition hc => cases ha
    | @iteration active' hc =>
      obtain ⟨hsource, rfl⟩ := Chain.enterIteration_eq hc
      obtain ⟨new, hnew, hadds⟩ := ht.accounts
      obtain ⟨r, hr, rfl⟩ := map_eq_ok.mp ho
      obtain ⟨hone, ⟨s, hlast, rfl⟩, hafter⟩ := Chain.leaveIteration_eq_ok hr
      -- One step more than before, so one call in the body accounts for it.
      rw [hnew, List.length_append, Nat.add_sub_cancel_left, List.length_eq_one_iff] at hone
      obtain ⟨s', rfl⟩ := hone
      rw [hnew, List.getLast?_append, List.getLast?_singleton, Option.some_or] at hlast
      cases hlast
      obtain ⟨call, added, hcall, hnil, hadded⟩ := List.forall₂_cons_right_iff.mp hadds
      rw [List.forall₂_nil_right_iff.mp hnil] at hadded
      have hresult := Step.result_eq_stepResults_iff.mpr (hcall.iterated rfl)
      refine ⟨call, s, hadded, hcall.gives, ?_, hafter.trans hnew⟩
      rw [hresult]
      exact ho

/-- The statement adds a step if it succeeds. -/
def Action.adds : Action → Bool
  | .call operation => operation.adds
  | .condition _ => false
  | .iteration _ => true

/-- A statement that adds a step gives the reference to its result. -/
theorem Executed.gives {entry : Entry} (h : Executed entry) (ha : entry.action.adds = true)
    {r? : Option Reference} (ho : entry.outcome = .ok r?) : ∃ s, entry.Gives s s.result := by
  cases hact : entry.action with
  | condition active =>
    rw [hact] at ha
    cases ha
  | iteration active =>
    obtain ⟨inner, s, -, -, hs⟩ := h.iteration_gives hact ho
    exact ⟨s, hs⟩
  | call operation =>
    rw [hact] at ha
    cases h with
    | refused hr =>
      cases ho
    | body hs _ => cases hs <;> cases hact
    | call c operation =>
      obtain ⟨new, -, hadds⟩ := callEntry_accounts c operation
      cases hact
      rw [Entry.additions_of_adds rfl ha ho] at hadds
      obtain ⟨s, -, hs, -, -⟩ := List.forall₂_cons_left_iff.mp hadds
      exact ⟨s, hs.gives⟩

end Script

/-! ## Graphs -/

/-- The graph of a chain iterates over a step if and only if the chain does. -/
theorem Chain.Named.source_of_compile {c : Chain} (h : c.Named) {g : Graph} (hg : c.compile = .ok g)
    {s : Step} (hs : s ∈ c.steps) :
    ∃ t, g.step? s.name = some t ∧ t.source.isSome = s.isIterated := by
  obtain ⟨i, hi⟩ := List.mem_iff_getElem?.mp hs
  obtain ⟨t, -, hcompiles, ht⟩ := h.compiled_step? hg hi
  have hsource := congrArg Option.isSome hcompiles.source
  rw [Option.isSome_map, Option.isSome_map] at hsource
  exact ⟨t, ht, hsource.symm⟩

/-- Without an output, the graph gives the result of the last step. -/
theorem Chain.output_of_compile {c : Chain} {g : Graph} (hg : c.compile = .ok g)
    (ho : c.output = none) :
    g.output = ((c.steps.getLast?.map fun s => .string s.result.template).getD .null) := by
  obtain ⟨steps, output, -, houtput, rfl⟩ := compile_eq_ok hg
  unfold compileOutput at houtput
  simp only [ho] at houtput
  split at houtput
  · rename_i s hs
    cases houtput
    simp [hs]
  · rename_i hs
    cases houtput
    simp [hs]

/-- Lists that are related element by element end with related elements. -/
theorem getLast?_of_forall₂ {α β : Type} {R : α → β → Prop} {as : List α} {bs : List β}
    (h : List.Forall₂ R as bs) {b : β} (hb : bs.getLast? = some b) :
    ∃ a, as.getLast? = some a ∧ R a b := by
  rw [← List.head?_reverse] at hb ⊢
  have hr := List.forall₂_reverse_iff.mpr h
  generalize as.reverse = as, bs.reverse = bs at hb hr
  cases hr with
  | nil => cases hb
  | cons hab _ =>
    cases hb
    exact ⟨_, rfl, hab⟩

namespace Script

/-- What the references that a run has given say is what the graph has. -/
structure HandlesAgree (run : Run) (g : Graph) : Prop where
  /-- The steps are those of the calls that stay. -/
  steps : List.Forall₂ (fun entry step => entry.Gives step step.result) (additions run.log)
    run.chain.steps
  /-- A reference to a step that is still there is one to results if the graph iterates over the
  step, and one to an output if it does not. -/
  reference : ∀ entry, Recorded entry run.log → entry.action.adds = true →
    ∀ r?, entry.outcome = .ok r? → ∃ step r, entry.Gives step r ∧
      (step ∈ run.chain.steps → ∃ t, g.step? step.name = some t ∧
        (t.source.isSome = true ↔ r = .stepResults step.name) ∧
        (t.source = none ↔ r = .stepOutput step.name))
  /-- An iteration gives the reference of the call in its body. -/
  iteration : ∀ entry, Recorded entry run.log → ∀ active, entry.action = .iteration active →
    ∀ r?, entry.outcome = .ok r? → ∃ inner r, additions entry.body = [inner] ∧
      inner.outcome = .ok (some r) ∧ entry.outcome = .ok (some r)
  /-- If no output is defined, it is what the last call that stays has given. -/
  output : run.chain.output = none →
    (run.chain.steps = [] ∧ g.output = .null) ∨
      ∃ entry step r, (additions run.log).getLast? = some entry ∧
        run.chain.steps.getLast? = some step ∧ entry.Gives step r ∧ g.output = .string r.template

/-- If the chain of a script compiles, the references that the script has been given agree with the
graph. -/
theorem handles_of_compile {start : Chain} (hstart : Initial start) (b : Bindings) (s : Script)
    {g : Graph} (hg : (s.run start b).chain.compile = .ok g) : HandlesAgree (s.run start b) g := by
  have ht := run_trace start b s
  have hnamed := (ht.invariant Chain.named_invariant (Chain.named_of_initial hstart)).1
  have hempty : start.steps = [] := by cases hstart <;> rfl
  have hsteps : List.Forall₂ (fun entry step => Entry.Gives entry step step.result)
      (additions (s.run start b).log) (s.run start b).chain.steps := by
    obtain ⟨new, hnew, hadds⟩ := ht.accounts
    rw [hnew, hempty]
    exact hadds.imp fun _ _ h => h.gives
  refine ⟨hsteps, fun entry hr hadds r? ho => ?_, fun entry hr active ha r? ho => ?_, fun ho => ?_⟩
  · obtain ⟨step, hgives⟩ := (ht.executed hr).gives hadds ho
    refine ⟨step, step.result, hgives, fun hmem => ?_⟩
    obtain ⟨t, ht, hsource⟩ := hnamed.source_of_compile hg hmem
    refine ⟨t, ht, ?_, ?_⟩
    · rw [hsource, Step.result_eq_stepResults_iff]
    · rw [← Option.not_isSome_iff_eq_none, hsource, Bool.not_eq_true,
        Step.result_eq_stepOutput_iff]
  · obtain ⟨inner, step, hadded, hinner, hgives⟩ := (ht.executed hr).iteration_gives ha ho
    exact ⟨inner, step.result, hadded, hinner.outcome, hgives.outcome⟩
  · rw [Chain.output_of_compile hg ho]
    cases hlast : (s.run start b).chain.steps.getLast? with
    | none => exact .inl ⟨List.getLast?_eq_none_iff.mp hlast, rfl⟩
    | some step =>
      obtain ⟨entry, hentry, hgives⟩ := getLast?_of_forall₂ hsteps hlast
      exact .inr ⟨entry, step, step.result, hentry, rfl, hgives, rfl⟩

/-- An iteration that fails and drops its steps, a step that gets the name of one of them, and an
iteration over its output under a condition. -/
def namedAgain : Script :=
  .iteration (fun _ => .items [.null])
    (.call (fun _ => .addStep "fetch" []) none .propagate <|
      .call (fun _ => .addStep "parse" []) none .propagate .done)
    none .ignore <|
    .call (fun _ => .addStep "fetch" []) (some "pages") .propagate <|
    .condition (fun _ => .null)
      (.iteration (fun b => .ref (b "pages"))
        (.call (fun b => .addNamedStep "each_page" "fetch" [("url", .ref (b "item"))]) none
          .propagate .done)
        none .propagate .done)
      none .propagate .done

/-- The first step that stays has an output, and the output of the graph is the list of results of
the second one. -/
theorem handles_of_namedAgain :
    ∃ g, (namedAgain.run {} fun _ => .params).chain.compile = .ok g ∧
      HandlesAgree (namedAgain.run {} fun _ => .params) g ∧
      g.steps.map (fun t => (t.name, t.source)) =
        [("fetch", none), ("each_page", some (.string "\x7b\x7bsteps.fetch.output\x7d\x7d"))] ∧
      g.output = .string "\x7b\x7bsteps.each_page.results\x7d\x7d" :=
  ⟨_, rfl, handles_of_compile .new _ namedAgain rfl, rfl, rfl⟩

end Script
end StepGraph
