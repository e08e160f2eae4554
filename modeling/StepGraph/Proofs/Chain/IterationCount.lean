import StepGraph.Proofs.Chain.Handles
import StepGraph.Proofs.Chain.Scoping

/-!
# An iteration succeeds if its body leaves one step

The body of an iteration is any program. It may add steps that do not stay, because an iteration or
a condition in it fails, and it may fail itself. What counts is how many steps more there are in the
end than there were in front.

* `Trace.exists_added`: a body leaves the steps that were there and adds steps behind them, all with
  the source of the iteration. So the number of steps never falls.
* `Chain.leaveIteration_eq`: what an iteration gives, from the outcome of its body and the steps
  that the body has added.
* `iteration_of_reachable`: an iteration in any reachable chain, from the test whether it may start
  to the steps that it leaves.
-/

namespace StepGraph

/-! ## The end of a body -/

namespace Chain

variable {α : Type}

/-- What an iteration gives whose body has ended and has added steps. -/
def iterationResult (result : Except DefinitionError α) (added : List Step) :
    Except DefinitionError Reference :=
  match result, added with
  | .error e, _ => .error e
  | .ok _, [s] => .ok (.stepResults s.name)
  | .ok _, added => .error (.iterationStepCount added.length)

theorem iterationResult_of_length_ne_one {a : α} {added : List Step} (h : added.length ≠ 1) :
    iterationResult (.ok a) added = .error (.iterationStepCount added.length) := by
  cases added with
  | nil => rfl
  | cons s added =>
    cases added with
    | nil => exact absurd rfl h
    | cons t added => rfl

theorem failure?_iterationResult_eq_none {result : Except DefinitionError α} {added : List Step} :
    failure? (iterationResult result added) = none ↔
      failure? result = none ∧ added.length = 1 := by
  cases result with
  | error e => simp [iterationResult, failure?]
  | ok a =>
    by_cases h : added.length = 1
    · obtain ⟨s, rfl⟩ := List.length_eq_one_iff.mp h
      simp [iterationResult, failure?]
    · simp [iterationResult_of_length_ne_one h, h, failure?]

/-- The steps that were there before the body are taken off, and the others count. -/
theorem leaveIteration_eq {c d : Chain} {added : List Step} (hd : d.steps = c.steps ++ added)
    (result : Except DefinitionError α) :
    (d.leaveIteration c result).1 = iterationResult result added := by
  cases result with
  | error e => rfl
  | ok a =>
    have hcount : d.clearIteration.steps.length - c.steps.length = added.length := by
      rw [clearIteration, hd, List.length_append, Nat.add_sub_cancel_left]
    unfold leaveIteration
    simp only [hcount]
    split
    · rename_i hone
      obtain ⟨s, rfl⟩ := List.length_eq_one_iff.mp hone
      have hlast : d.clearIteration.steps.getLast? = some s := by
        rw [clearIteration, hd, List.getLast?_append, List.getLast?_singleton, Option.some_or]
      rw [hlast]
      rfl
    · rename_i hmany
      exact (iterationResult_of_length_ne_one hmany).symm

end Chain

namespace Script

/-! ## The steps of a body -/

/-- The step of a call has the source of the scope in which the call stands. -/
theorem source_of_callEntry (c : Chain) (call : Call) (scope : Scope) :
    ∀ s ∈ (callEntry c call).lexicalSteps scope, s.source = scope.source := by
  unfold callEntry
  generalize call.apply c = result
  obtain ⟨outcome, after⟩ := result
  cases outcome with
  | error e =>
    rw [Entry.lexicalSteps]
    exact List.forall_mem_nil _
  | ok r? =>
    rw [Entry.lexicalSteps]
    exact fun s hs => Call.source_of_step? (Option.mem_toList.mp hs)

/-- Inside an iteration no other one starts, so every step has the source of the iteration. -/
theorem Trace.source_of_lexicalSteps {c d : Chain} {log : List Entry} (h : Trace c log d)
    {source : Source} (hc : c.scope.source = some source) :
    ∀ s ∈ lexicalSteps c.scope log, s.source = some source := by
  induction h with
  | done c =>
    rw [lexicalSteps]
    exact List.forall_mem_nil _
  | @call c d log call _ ih =>
    have hscope : (callEntry c call).after.scope = c.scope := (Call.effect c call).extends.scope
    rw [lexicalSteps, List.forall_mem_append]
    refine ⟨fun s hs => (source_of_callEntry c call c.scope s hs).trans hc, ?_⟩
    rw [← hscope]
    exact ih (hscope ▸ hc)
  | @refused c d log action e _ _ ih =>
    have he : (refusedEntry c action e).outcome = .error e := rfl
    rw [lexicalSteps, Entry.lexicalSteps_of_error _ he, List.nil_append]
    exact ih hc
  | @body c inner d ran entry log hs ht _ ihBody ih =>
    have hscope : entry.after.scope = c.scope := (hs.extends ht.extends).scope
    rw [lexicalSteps, List.forall_mem_append]
    refine ⟨?_, hscope ▸ ih (hscope ▸ hc)⟩
    cases ho : entry.outcome with
    | error e =>
      rw [Entry.lexicalSteps_of_error _ ho]
      exact List.forall_mem_nil _
    | ok r? =>
      rw [hs.lexicalSteps_eq ho]
      apply ihBody
      cases hs with
      | condition h => exact (Chain.enterCondition_eq h).2 ▸ hc
      | iteration h =>
        rw [(Chain.enterIteration_eq h).1] at hc
        cases hc

/-- The body of an iteration leaves the steps that were there and adds steps with its source. -/
theorem Trace.exists_added {c inner d : Chain} {log : List Entry} {source : Source}
    (henter : c.enterIteration source = .ok inner) (h : Trace inner log d) :
    ∃ added, d.steps = c.steps ++ added ∧ ∀ s ∈ added, s.source = some source := by
  obtain ⟨-, rfl⟩ := Chain.enterIteration_eq henter
  exact ⟨_, h.steps_eq, h.source_of_lexicalSteps rfl⟩

/-- In a chain with distinct names the steps that a run adds have other names than those that were
there. -/
theorem Trace.names_of_added {c d : Chain} {log : List Entry} (h : Trace c log d) (hc : c.Named)
    {added : List Step} (hd : d.steps = c.steps ++ added) :
    ∀ s ∈ added, s.name ∉ c.steps.map (·.name) := by
  intro s hs hmem
  have hnodup := (h.invariant Chain.named_invariant hc).1.nodup
  rw [hd, List.map_append, List.nodup_append] at hnodup
  exact hnodup.2.2 s.name hmem s.name (List.mem_map_of_mem hs) rfl

/-! ## Iterations in a script -/

/-- The entry of an iteration that is executed in `c`. -/
def iterate (c : Chain) (b : Bindings) (source : Source) (body : Script) : Entry :=
  match c.enterIteration source with
  | .error e => refusedEntry c (.iteration source) e
  | .ok inner => iterationEntry c source (body.run inner (b.bindScope {}))

theorem log_proceed (entry : Entry) (b : Bindings) (target : Option String) (onFailure : OnFailure)
    (rest : Bindings → Run) :
    ∃ log, (proceed entry b target onFailure rest).log = entry :: log := by
  unfold proceed
  cases entry.outcome with
  | ok r? => exact ⟨_, rfl⟩
  | error e => cases onFailure <;> exact ⟨_, rfl⟩

/-- The log of a script that starts with an iteration starts with its entry. -/
theorem log_iteration (c : Chain) (b : Bindings) (active : Bindings → Source) (body : Script)
    (target : Option String) (onFailure : OnFailure) (rest : Script) :
    ∃ log, ((iteration active body target onFailure rest).run c b).log =
      iterate c b (active b) body :: log := by
  unfold iterate
  rw [run]
  cases c.enterIteration (active b) with
  | error e => exact log_proceed ..
  | ok inner => exact log_proceed ..

/-- How an iteration over `source` goes that is executed in `c`, where `ran` is the run of its body
if there is one. -/
structure Iterates (c : Chain) (source : Source) (ran : Run) (entry : Entry) : Prop where
  /-- In another iteration it does not start. The body is not run, and the chain stays. -/
  refused : c.scope.source ≠ none →
    entry = ⟨.iteration source, c, .error .iterationAlreadyActive, c, []⟩
  /-- Otherwise the body is run. -/
  entered : c.scope.source = none →
    entry.action = .iteration source ∧ entry.before = c ∧ entry.body = ran.log
  /-- The body leaves the steps that were there and adds new ones, all with the source. An error of
  the body is the one of the iteration, and without an error the new steps count. -/
  ended : c.scope.source = none → ∃ added, ran.chain.steps = c.steps ++ added ∧
    (∀ s ∈ added, s.source = some source ∧ s.name ∉ c.steps.map (·.name)) ∧
    (∀ e, ran.failure = some e → entry.outcome = .error e) ∧
    (ran.failure = none → added.length ≠ 1 →
      entry.outcome = .error (.iterationStepCount added.length)) ∧
    ∀ s, ran.failure = none → added = [s] →
      entry.outcome = .ok (some (.stepResults s.name)) ∧ entry.after.steps = c.steps ++ [s]
  /-- It succeeds if its body has ended well with one step more, and in no other case. -/
  succeeds : (∃ r?, entry.outcome = .ok r?) ↔ c.scope.source = none ∧ ran.failure = none ∧
    ran.chain.steps.length = c.steps.length + 1
  /-- There are never fewer steps than before, and where there is one more there is a last one. -/
  counted : c.scope.source = none → c.steps.length ≤ ran.chain.steps.length ∧
    (ran.chain.steps.length - c.steps.length = 1 → ran.chain.steps.getLast? ≠ none)

/-- An active iteration does not let another one start. -/
theorem iterates_of_active {c : Chain} {other : Source} (h : c.scope.source = some other)
    (source : Source) (ran : Run) :
    Iterates c source ran (refusedEntry c (.iteration source) .iterationAlreadyActive) := by
  have hactive : c.scope.source ≠ none := by simp [h]
  constructor
  case refused => exact fun _ => rfl
  case entered | ended | counted => exact fun hfree => absurd hfree hactive
  case succeeds => exact ⟨fun ⟨_, ho⟩ => (nomatch ho), fun hfree => absurd hfree.1 hactive⟩

theorem failure?_outcome (ran : Run) : failure? ran.outcome = ran.failure := by
  unfold Run.outcome
  cases ran.failure <;> rfl

/-- An iteration that has been entered gives what the steps count that its body has added. -/
theorem iterates_of_trace {c inner : Chain} {source : Source} {ran : Run}
    (henter : c.enterIteration source = .ok inner) (hc : c.Named)
    (ht : Trace inner ran.log ran.chain) :
    Iterates c source ran (iterationEntry c source ran) := by
  have hs : Surrounds c inner ran (iterationEntry c source ran) := .iteration henter
  have hfree := (Chain.enterIteration_eq henter).1
  obtain ⟨added, hadded, hsource⟩ := ht.exists_added henter
  have hlength : ran.chain.steps.length = c.steps.length + added.length := by
    rw [hadded, List.length_append]
  have hnames : ∀ s ∈ added, s.name ∉ c.steps.map (·.name) := by
    rw [← hs.inner_agrees.steps] at hadded ⊢
    exact ht.names_of_added (hc.of_agrees hs.inner_agrees) hadded
  have houtcome : (iterationEntry c source ran).outcome =
      (Chain.iterationResult ran.outcome added).map some := by
    rw [← Chain.leaveIteration_eq hadded]
    rfl
  constructor
  case refused => exact fun h => absurd hfree h
  case entered => exact fun _ => ⟨rfl, rfl, rfl⟩
  case ended =>
    refine fun _ => ⟨added, hadded, fun s hs => ⟨hsource s hs, hnames s hs⟩, ?_, ?_, ?_⟩
    · intro e he
      rw [houtcome, Run.outcome, he]
      rfl
    · intro hend hmany
      rw [houtcome, Run.outcome, hend, Chain.iterationResult_of_length_ne_one hmany]
      rfl
    · rintro s hend rfl
      have ho : (iterationEntry c source ran).outcome = .ok (some (.stepResults s.name)) := by
        rw [houtcome, Run.outcome, hend]
        rfl
      exact ⟨ho, (hs.agrees_of_ok ht.extends ho).steps.trans hadded⟩
  case succeeds =>
    rw [← failure?_eq_none, houtcome, failure?_map, Chain.failure?_iterationResult_eq_none,
      failure?_outcome, hlength, Nat.add_left_cancel_iff]
    exact ⟨fun h => ⟨hfree, h⟩, fun h => h.2⟩
  case counted =>
    refine fun _ => ⟨by omega, fun hone hnil => ?_⟩
    rw [List.getLast?_eq_none_iff] at hnil
    simp [hnil] at hone

/-- An iteration in a reachable chain succeeds if and only if no other one is active and its body
ends without an error and with one step more. Its result is then that of the step, which has its
source, and else its error tells which of these is missing. -/
theorem iteration_of_reachable {c : Chain} (h : Reachable c) (b : Bindings)
    (active : Bindings → Source) (body : Script) (target : Option String) (onFailure : OnFailure)
    (rest : Script) :
    ∃ entry log, ((iteration active body target onFailure rest).run c b).log = entry :: log ∧
      Iterates c (active b)
        (body.run { c with scope := { c.scope with source := some (active b) } } (b.bindScope {}))
        entry := by
  have hc : c.Named := h.invariant Chain.named_invariant fun _ => Chain.named_of_initial
  obtain ⟨log, hlog⟩ := log_iteration c b active body target onFailure rest
  refine ⟨_, log, hlog, ?_⟩
  unfold iterate
  cases hs : c.scope.source with
  | none =>
    have henter : c.enterIteration (active b) =
        .ok { c with scope := { c.scope with source := some (active b) } } := by
      simp only [Chain.enterIteration, hs]
    rw [henter]
    exact iterates_of_trace henter hc (run_trace _ _ body)
  | some source =>
    have henter : c.enterIteration (active b) = .error .iterationAlreadyActive := by
      simp only [Chain.enterIteration, hs]
    rw [henter]
    exact iterates_of_active hs ..

/-- A body that adds two steps under a condition and fails there, and then adds one. -/
def secondAttempt : Script :=
  .condition (fun _ => .literal true)
    (.call (fun b => .addNamedStep "each_page" "fetch" [("at", .ref (b "index"))]) none
      .propagate <|
      .call (fun _ => .addStep "parse" []) none .propagate <|
      .call (fun _ => .embedCode [] " ") none .propagate .done)
    none .ignore <|
    .call (fun b => .addNamedStep "each_page" "fetch" [("url", .ref (b "item"))]) none .propagate
      .done

/-- A chain with a step whose output is iterated over. -/
def listed : Script := .call (fun _ => .addStep "fetch" []) (some "pages") .propagate .done

/-- One of the three steps that the body adds stays, and it is the one that counts. -/
theorem iteration_of_secondAttempt :
    Reachable (listed.run {} fun _ => .params).chain ∧
      ∃ entry log, ((iteration (fun _ => .ref (.stepOutput "fetch")) secondAttempt none .propagate
          .done).run (listed.run {} fun _ => .params).chain fun _ => .params).log = entry :: log ∧
        entry.body.length = 2 ∧ entry.outcome = .ok (some (.stepResults "each_page")) ∧
        entry.after.steps.map (fun s => (s.name, s.isIterated)) =
          [("fetch", false), ("each_page", true)] := by
  have h : Reachable (listed.run {} fun _ => .params).chain :=
    ⟨{}, _, listed, .new, .inl rfl⟩
  obtain ⟨entry, log, hlog, hi⟩ := iteration_of_reachable h (fun _ => .params)
    (fun _ => .ref (.stepOutput "fetch")) secondAttempt none .propagate .done
  obtain ⟨-, -, hbody⟩ := hi.entered rfl
  obtain ⟨added, hadded, -, -, -, hone⟩ := hi.ended rfl
  obtain ⟨houtcome, hsteps⟩ := hone _ rfl (List.append_cancel_left hadded.symm)
  exact ⟨h, entry, log, hlog, hbody ▸ rfl, houtcome, hsteps ▸ rfl⟩

end Script
end StepGraph
