import StepGraph.Chain.Script
import StepGraph.Proofs.Namer

/-!
# Runs as traces

What the run of a script does to a chain, one statement after the other.

* **Calls** (`Call.Effect`): a call is refused and changes nothing, or it has one of four effects.
* **Extension** (`Chain.Extends`): steps are only appended, and what has been set stays.
* **Bodies** (`Script.Surrounds`): the statement around a body keeps all that the body has added
  (`Closes.kept`), or drops it and leaves the chain as it was (`Closes.dropped`).
* **Traces** (`Script.Trace`): the log of a run leads from its first chain to its last one
  (`run_trace`). Proofs about runs are inductions on the trace; those about single statements are
  case distinctions on `Script.Executed`, which holds of every entry, in bodies too.
* **Invariants** (`Script.Invariant`): what calls preserve holds of every reachable chain.
-/

namespace StepGraph

namespace Chain

/-- `d` and `c` have the same steps, names, parameters and output. -/
structure Agrees (d c : Chain) : Prop where
  steps : d.steps = c.steps
  namer : d.namer = c.namer
  params : d.params = c.params
  output : d.output = c.output

theorem Agrees.refl (c : Chain) : Agrees c c := ⟨rfl, rfl, rfl, rfl⟩

/-- `d` has come from `c` by appending steps and by setting what was not set, in the same scope. -/
structure Extends (d c : Chain) : Prop where
  steps : c.steps <+: d.steps
  params : ∀ p, c.params = some p → d.params = some p
  output : ∀ o, c.output = some o → d.output = some o
  scope : d.scope = c.scope

theorem Extends.refl (c : Chain) : Extends c c :=
  ⟨List.prefix_rfl, fun _ h => h, fun _ h => h, rfl⟩

theorem Extends.trans {c d e : Chain} (h : e.Extends d) (h' : d.Extends c) : e.Extends c where
  steps := h'.steps.trans h.steps
  params p hp := h.params p (h'.params p hp)
  output o ho := h.output o (h'.output o ho)
  scope := h.scope.trans h'.scope

theorem Agrees.extends {c d : Chain} (h : d.Agrees c) (hs : d.scope = c.scope) : d.Extends c where
  steps := ⟨[], by rw [h.steps, List.append_nil]⟩
  params p hp := h.params ▸ hp
  output o ho := h.output ▸ ho
  scope := hs

end Chain

/-! ## Calls -/

namespace Call

/-- The step that a call adds under names and in a scope, if it adds one. -/
def step? (namer : Namer) (scope : Scope) : Call → Option Step
  | addStep transformation params =>
    some ⟨namer.nextName transformation, transformation, params, scope.condition, scope.source⟩
  | addNamedStep name transformation params =>
    some ⟨name, transformation, params, scope.condition, scope.source⟩
  | embedCode inputs source =>
    let code := InlineCode.wrap inputs (String.ofList (Text.trim source.toList))
    some ⟨namer.nextName InlineCode.transformation, InlineCode.transformation,
      [("code", .string code)], scope.condition, scope.source⟩
  | _ => none

/-- What a call does to the chain `c`, with its outcome and the chain after it. -/
inductive Effect (c : Chain) (call : Call) : Outcome → Chain → Prop where
  | refused (e : DefinitionError) : Effect c call (.error e) c
  /-- Setters change nothing of what the chain defines. -/
  | silent (d : Chain) : call.step? c.namer c.scope = none → d.Agrees c → d.scope = c.scope →
      Effect c call (.ok none) d
  | params (schema : Dict Schema) : call.step? c.namer c.scope = none → c.params = none →
      Effect c call (.ok (some .params)) { c with params := some schema }
  | output (o : Output) : call.step? c.namer c.scope = none → c.output = none →
      Effect c call (.ok none) { c with output := some o }
  /-- A step gets a name that is free, and does not refer to an iteration from outside. -/
  | step (s : Step) : call.step? c.namer c.scope = some s → s.name ∉ c.namer.taken →
      s.stray? = none →
      Effect c call (.ok (some s.result))
        { c with steps := c.steps ++ [s], namer := c.namer.record s.name s.transformation }

/-- Appending a step under a free name. A step that is refused leaves the chain as it was. -/
theorem effect_pushStep {c : Chain} {call : Call} {name transformation : String}
    {params : List (String × Param)}
    (hs : call.step? c.namer c.scope = some (c.stepFor name transformation params))
    (hn : name ∉ c.namer.taken) :
    Effect c call (done some (c.pushStep name transformation params)).1
      (done some (c.pushStep name transformation params)).2 := by
  unfold Chain.pushStep
  cases hr : (c.stepFor name transformation params).stray? with
  | some r =>
    simp only [hr]
    exact .refused _
  | none =>
    simp only [hr]
    exact .step _ hs hn hr

/-- Every call has one of the effects. -/
theorem effect (c : Chain) (call : Call) : Effect c call (call.apply c).1 (call.apply c).2 := by
  cases call with
  | setChainId id => exact .silent _ rfl ⟨rfl, rfl, rfl, rfl⟩ rfl
  | setTitle text => exact .silent _ rfl ⟨rfl, rfl, rfl, rfl⟩ rfl
  | setDescription text => exact .silent _ rfl ⟨rfl, rfl, rfl, rfl⟩ rfl
  | setPubliclyTriggerable value => exact .silent _ rfl ⟨rfl, rfl, rfl, rfl⟩ rfl
  | setPublic value => exact .silent _ rfl ⟨rfl, rfl, rfl, rfl⟩ rfl
  | observe => exact .silent _ rfl (.refl c) rfl
  | defineParams schema =>
    simp only [apply, Chain.defineParams]
    cases hp : c.params with
    | some p => exact .refused _
    | none => exact .params schema rfl hp
  | defineOutput output =>
    simp only [apply, Chain.defineOutput]
    cases ho : c.output with
    | some o => exact .refused _
    | none => exact .output output rfl ho
  | addStep transformation params =>
    exact effect_pushStep rfl (Namer.nextName_not_mem c.namer transformation)
  | addNamedStep name transformation params =>
    simp only [apply, Chain.addNamedStep]
    split
    · exact .refused _
    · rename_i hn
      exact effect_pushStep rfl (by simpa [Namer.isTaken] using hn)
  | embedCode inputs source =>
    simp only [apply, Chain.embedCode]
    split
    · exact .refused _
    · exact effect_pushStep rfl (Namer.nextName_not_mem c.namer InlineCode.transformation)

theorem Effect.extends {c d : Chain} {call : Call} {outcome : Outcome}
    (h : Effect c call outcome d) : d.Extends c := by
  cases h with
  | refused e => exact .refl c
  | silent d hs ha hsc => exact ha.extends hsc
  | params schema hs hp =>
    refine ⟨List.prefix_rfl, fun p h => ?_, fun _ h => h, rfl⟩
    rw [hp] at h
    cases h
  | output o hs ho =>
    refine ⟨List.prefix_rfl, fun _ h => h, fun o h => ?_, rfl⟩
    rw [ho] at h
    cases h
  | step s hs hn hr => exact ⟨List.prefix_append _ _, fun _ h => h, fun _ h => h, rfl⟩

end Call

/-! ## Bodies -/

namespace Chain

/-- Every effect of a body on what the chain defines is kept, or every one is dropped. -/
inductive Closes (c d : Chain) {α : Type} : Except DefinitionError α → Chain → Prop where
  | kept (a : α) (after : Chain) : after.Agrees d → after.scope = c.scope → Closes c d (.ok a) after
  | dropped (e : DefinitionError) (after : Chain) : after.Agrees c → after.scope = c.scope →
      Closes c d (.error e) after

variable {c inner d : Chain}

/-- Undoing what has come after `c` leads back to `c`. -/
theorem Extends.rollback_agrees (h : d.Extends c) : (d.rollback c).Agrees c where
  steps := List.prefix_iff_eq_take.mp h.steps |>.symm
  namer := rfl
  params := by
    unfold rollback
    cases hp : c.params with
    | none => rfl
    | some p => simp [h.params p hp]
  output := by
    unfold rollback
    cases ho : c.output with
    | none => rfl
    | some o => simp [h.output o ho]

theorem enterCondition_eq {x : Condition} (h : c.enterCondition x = .ok inner) :
    c.scope.condition = none ∧
      inner = { c with scope := { c.scope with condition := some x } } := by
  unfold enterCondition at h
  split at h
  · cases h
  · rename_i hc
    cases h
    exact ⟨hc, rfl⟩

theorem enterIteration_eq {x : Source} (h : c.enterIteration x = .ok inner) :
    c.scope.source = none ∧ inner = { c with scope := { c.scope with source := some x } } := by
  unfold enterIteration at h
  split at h
  · cases h
  · rename_i hc
    cases h
    exact ⟨hc, rfl⟩

/-- A body under a condition extends the chain before it, once the condition is off again. -/
theorem extends_clearCondition {x : Condition} (h : c.enterCondition x = .ok inner)
    (hd : d.Extends inner) : d.clearCondition.Extends c := by
  obtain ⟨hc, rfl⟩ := enterCondition_eq h
  refine ⟨hd.steps, hd.params, hd.output, ?_⟩
  simp only [clearCondition, hd.scope, ← hc]

theorem extends_clearIteration {x : Source} (h : c.enterIteration x = .ok inner)
    (hd : d.Extends inner) : d.clearIteration.Extends c := by
  obtain ⟨hc, rfl⟩ := enterIteration_eq h
  refine ⟨hd.steps, hd.params, hd.output, ?_⟩
  simp only [clearIteration, hd.scope, ← hc]

variable {α : Type}

theorem leaveCondition_closes {x : Condition} (result : Except DefinitionError α)
    (h : c.enterCondition x = .ok inner) (hd : d.Extends inner) :
    Closes c d (d.leaveCondition c result).1 (d.leaveCondition c result).2 := by
  have hx := extends_clearCondition h hd
  cases result with
  | ok a => exact .kept a _ ⟨rfl, rfl, rfl, rfl⟩ hx.scope
  | error e => exact .dropped e _ hx.rollback_agrees hx.scope

/-- The only step of an iteration is the last one. -/
theorem leaveIteration_closes {x : Source} (result : Except DefinitionError α)
    (h : c.enterIteration x = .ok inner) (hd : d.Extends inner) :
    Closes c d (d.leaveIteration c result).1 (d.leaveIteration c result).2 := by
  have hx := extends_clearIteration h hd
  cases result with
  | error e => exact .dropped e _ hx.rollback_agrees hx.scope
  | ok a =>
    unfold leaveIteration
    simp only
    split
    · split
      · exact .kept _ _ ⟨rfl, rfl, rfl, rfl⟩ hx.scope
      · rename_i hone _ hlast
        rw [List.getLast?_eq_none_iff] at hlast
        rw [hlast] at hone
        simp at hone
    · exact .dropped _ _ hx.rollback_agrees hx.scope

theorem Closes.extends {result : Except DefinitionError α} {after : Chain}
    (h : Closes c d result after) (hd : d.Extends inner) (hi : inner.Agrees c) :
    after.Extends c := by
  cases h with
  | kept a after ha hs =>
    refine ⟨?_, fun p hp => ?_, fun o ho => ?_, hs⟩
    · rw [ha.steps, ← hi.steps]
      exact hd.steps
    · rw [ha.params]
      exact hd.params p (hi.params.trans hp)
    · rw [ha.output]
      exact hd.output o (hi.output.trans ho)
  | dropped e after ha hs => exact ha.extends hs

/-- What looks only at the definitions and holds before and in the body holds after it. -/
theorem Closes.preserves {result : Except DefinitionError α} {after : Chain} {P : Chain → Prop}
    (h : Closes c d result after) (hP : ∀ {c d : Chain}, d.Agrees c → P c → P d) (hc : P c)
    (hd : P d) : P after := by
  cases h with
  | kept a after ha hs => exact hP ha hd
  | dropped e after ha hs => exact hP ha hc

end Chain

/-! ## Entries and traces -/

namespace Script

/-- The scope that the body of a statement runs in. -/
def Action.scope (scope : Scope) : Action → Scope
  | .call _ => scope
  | .condition active => { scope with condition := some active }
  | .iteration active => { scope with source := some active }

/-- The statement cannot be entered in `c`. -/
inductive Refuses (c : Chain) : Action → DefinitionError → Prop where
  | condition {active : Condition} {e : DefinitionError} :
      c.enterCondition active = .error e → Refuses c (.condition active) e
  | iteration {active : Source} {e : DefinitionError} :
      c.enterIteration active = .error e → Refuses c (.iteration active) e

/-- The entry of a statement whose body starts in `inner` and has run. -/
inductive Surrounds (c inner : Chain) (body : Run) : Entry → Prop where
  | condition {active : Condition} :
      c.enterCondition active = .ok inner → Surrounds c inner body (conditionEntry c active body)
  | iteration {active : Source} :
      c.enterIteration active = .ok inner → Surrounds c inner body (iterationEntry c active body)

namespace Surrounds

variable {c inner : Chain} {body : Run} {entry : Entry}

theorem before_eq (h : Surrounds c inner body entry) : entry.before = c := by cases h <;> rfl

theorem body_eq (h : Surrounds c inner body entry) : entry.body = body.log := by cases h <;> rfl

/-- Entering a body changes the scope and nothing else. -/
theorem inner_eq (h : Surrounds c inner body entry) :
    inner = { c with scope := entry.action.scope c.scope } := by
  cases h with
  | condition h => exact (Chain.enterCondition_eq h).2
  | iteration h => exact (Chain.enterIteration_eq h).2

theorem inner_agrees (h : Surrounds c inner body entry) : inner.Agrees c := by
  rw [h.inner_eq]
  exact ⟨rfl, rfl, rfl, rfl⟩

theorem action_ne_call (h : Surrounds c inner body entry) (call : Call) :
    entry.action ≠ .call call := by
  cases h <;> nofun

theorem closes (h : Surrounds c inner body entry) (hb : body.chain.Extends inner) :
    c.Closes body.chain entry.outcome entry.after := by
  cases h with
  | condition h => exact Chain.leaveCondition_closes body.outcome h hb
  | iteration h =>
    have := Chain.leaveIteration_closes body.outcome h hb
    simp only [iterationEntry]
    generalize body.chain.leaveIteration c body.outcome = left at this
    obtain ⟨outcome, after⟩ := left
    cases this with
    | kept r after ha hs => exact .kept _ _ ha hs
    | dropped e after ha hs => exact .dropped _ _ ha hs

/-- If the statement succeeds, all that its body has defined stays. -/
theorem agrees_of_ok (h : Surrounds c inner body entry) (hb : body.chain.Extends inner)
    {r? : Option Reference} (ho : entry.outcome = .ok r?) : entry.after.Agrees body.chain := by
  have hc := h.closes hb
  rw [ho] at hc
  cases hc with
  | kept _ _ ha _ => exact ha

/-- If the statement fails, nothing of it stays. -/
theorem agrees_of_error (h : Surrounds c inner body entry) (hb : body.chain.Extends inner)
    {e : DefinitionError} (ho : entry.outcome = .error e) : entry.after.Agrees c := by
  have hc := h.closes hb
  rw [ho] at hc
  cases hc with
  | dropped _ _ ha _ => exact ha

end Surrounds

theorem Surrounds.extends {c inner : Chain} {body : Run} {entry : Entry}
    (h : Surrounds c inner body entry) (hb : body.chain.Extends inner) : entry.after.Extends c :=
  (h.closes hb).extends hb h.inner_agrees

/-- A log that leads from the first chain to the second one. -/
inductive Trace : Chain → List Entry → Chain → Prop where
  | done (c : Chain) : Trace c [] c
  | call {c d : Chain} {log : List Entry} (call : Call) :
      Trace (callEntry c call).after log d → Trace c (callEntry c call :: log) d
  | refused {c d : Chain} {log : List Entry} {action : Action} {e : DefinitionError} :
      Refuses c action e → Trace c log d → Trace c (refusedEntry c action e :: log) d
  | body {c inner d : Chain} {ran : Run} {entry : Entry} {log : List Entry} :
      Surrounds c inner ran entry → Trace inner ran.log ran.chain → Trace entry.after log d →
      Trace c (entry :: log) d

theorem proceed_trace {c : Chain} {entry : Entry} {bindings : Bindings} {target : Option String}
    {onFailure : OnFailure} {rest : Bindings → Run}
    (hend : Trace c [entry] entry.after)
    (hrest : ∀ b, Trace c (entry :: (rest b).log) (rest b).chain) :
    Trace c (proceed entry bindings target onFailure rest).log
      (proceed entry bindings target onFailure rest).chain := by
  unfold proceed
  cases entry.outcome with
  | ok r => exact hrest _
  | error e =>
    cases onFailure with
    | propagate => exact hend
    | ignore => exact hrest _

/-- Every run leaves a trace. -/
theorem run_trace (c : Chain) (b : Bindings) (s : Script) :
    Trace c (s.run c b).log (s.run c b).chain := by
  induction s generalizing c b with
  | done => exact .done c
  | call operation target onFailure rest ih =>
    exact proceed_trace (.call _ (.done _)) fun b => .call _ (ih _ b)
  | condition active body target onFailure rest ihBody ih =>
    simp only [run]
    cases h : c.enterCondition (active b) with
    | error e =>
      exact proceed_trace (.refused (.condition h) (.done c)) fun b =>
        .refused (.condition h) (ih c b)
    | ok inner =>
      exact proceed_trace (.body (.condition h) (ihBody _ _) (.done _)) fun b =>
        .body (.condition h) (ihBody _ _) (ih _ b)
  | iteration active body target onFailure rest ihBody ih =>
    simp only [run]
    cases h : c.enterIteration (active b) with
    | error e =>
      exact proceed_trace (.refused (.iteration h) (.done c)) fun b =>
        .refused (.iteration h) (ih c b)
    | ok inner =>
      exact proceed_trace (.body (.iteration h) (ihBody _ _) (.done _)) fun b =>
        .body (.iteration h) (ihBody _ _) (ih _ b)

/-- A run extends the chain that it starts from. -/
theorem Trace.extends {c d : Chain} {log : List Entry} (h : Trace c log d) : d.Extends c := by
  induction h with
  | done c => exact .refl c
  | call call _ ih => exact ih.trans (Call.effect _ call).extends
  | refused _ _ ih => exact ih
  | body hs _ _ ihBody ih => exact ih.trans (hs.extends ihBody)

/-- An entry stands in a log, or in the log of a body. -/
inductive Recorded (entry : Entry) : List Entry → Prop where
  | here {log : List Entry} : entry ∈ log → Recorded entry log
  | inside {outer : Entry} {log : List Entry} : outer ∈ log → Recorded entry outer.body →
      Recorded entry log

theorem recorded_nil (entry : Entry) : ¬Recorded entry [] := by
  rintro (h | ⟨h, -⟩) <;> cases h

theorem recorded_cons {entry first : Entry} {log : List Entry} :
    Recorded entry (first :: log) ↔
      entry = first ∨ Recorded entry first.body ∨ Recorded entry log := by
  constructor
  · rintro (h | ⟨h, hr⟩)
    · exact (List.mem_cons.mp h).imp_right fun h => .inr (.here h)
    · obtain rfl | h := List.mem_cons.mp h
      · exact .inr (.inl hr)
      · exact .inr (.inr (.inside h hr))
  · rintro (rfl | h | h | ⟨h, hr⟩)
    · exact .here (List.mem_cons_self ..)
    · exact .inside (List.mem_cons_self ..) h
    · exact .here (List.mem_cons_of_mem _ h)
    · exact .inside (List.mem_cons_of_mem _ h) hr

theorem forall_recorded_nil {P : Entry → Prop} : ∀ entry, Recorded entry [] → P entry :=
  fun entry hr => absurd hr (recorded_nil entry)

theorem forall_recorded_cons {P : Entry → Prop} {first : Entry} {log : List Entry} :
    (∀ entry, Recorded entry (first :: log) → P entry) ↔
      P first ∧ (∀ entry, Recorded entry first.body → P entry) ∧
        ∀ entry, Recorded entry log → P entry := by
  simp only [recorded_cons, or_imp, forall_and, forall_eq]

/-- The entry of a statement that has been executed. -/
inductive Executed : Entry → Prop where
  | call (c : Chain) (call : Call) : Executed (callEntry c call)
  | refused {c : Chain} {action : Action} {e : DefinitionError} :
      Refuses c action e → Executed (refusedEntry c action e)
  | body {c inner : Chain} {ran : Run} {entry : Entry} :
      Surrounds c inner ran entry → Trace inner ran.log ran.chain → Executed entry

theorem Trace.executed {c d : Chain} {log : List Entry} {entry : Entry} (h : Trace c log d)
    (hr : Recorded entry log) : Executed entry := by
  induction h with
  | done c => exact absurd hr (recorded_nil entry)
  | call call _ ih =>
    obtain rfl | hr | hr := recorded_cons.mp hr
    · exact .call _ call
    · exact absurd hr (recorded_nil entry)
    · exact ih hr
  | refused h _ ih =>
    obtain rfl | hr | hr := recorded_cons.mp hr
    · exact .refused h
    · exact absurd hr (recorded_nil entry)
    · exact ih hr
  | body hs ht _ ihBody ih =>
    obtain rfl | hr | hr := recorded_cons.mp hr
    · exact .body hs ht
    · exact ihBody (hs.body_eq ▸ hr)
    · exact ih hr

/-- What an executed statement leaves extends what it has found. -/
theorem Executed.extends {entry : Entry} (h : Executed entry) :
    entry.after.Extends entry.before := by
  cases h with
  | call c call => exact (Call.effect c call).extends
  | refused h => exact .refl _
  | body hs ht =>
    rw [hs.before_eq]
    exact hs.extends ht.extends

/-! ## Invariants -/

/-- A property of what chains define that calls preserve. -/
structure Invariant (P : Chain → Prop) : Prop where
  agrees : ∀ {c d : Chain}, d.Agrees c → P c → P d
  call : ∀ {c : Chain} (call : Call), P c → P (call.apply c).2

/-- An invariant holds before and after every statement, in bodies too, and in the end. -/
theorem Trace.invariant {P : Chain → Prop} (hP : Invariant P) {c d : Chain} {log : List Entry}
    (h : Trace c log d) (hc : P c) :
    P d ∧ ∀ entry, Recorded entry log → P entry.before ∧ P entry.after := by
  induction h with
  | done c => exact ⟨hc, fun entry hr => absurd hr (recorded_nil entry)⟩
  | call call _ ih =>
    have hafter := hP.call call hc
    obtain ⟨hd, hlog⟩ := ih hafter
    refine ⟨hd, fun entry hr => ?_⟩
    obtain rfl | hr | hr := recorded_cons.mp hr
    · exact ⟨hc, hafter⟩
    · exact absurd hr (recorded_nil entry)
    · exact hlog entry hr
  | refused _ _ ih =>
    obtain ⟨hd, hlog⟩ := ih hc
    refine ⟨hd, fun entry hr => ?_⟩
    obtain rfl | hr | hr := recorded_cons.mp hr
    · exact ⟨hc, hc⟩
    · exact absurd hr (recorded_nil entry)
    · exact hlog entry hr
  | body hs ht _ ihBody ih =>
    obtain ⟨hran, hbody⟩ := ihBody (hP.agrees hs.inner_agrees hc)
    have hafter := (hs.closes ht.extends).preserves hP.agrees hc hran
    obtain ⟨hd, hlog⟩ := ih hafter
    refine ⟨hd, fun entry hr => ?_⟩
    obtain rfl | hr | hr := recorded_cons.mp hr
    · exact ⟨hs.before_eq ▸ hc, hafter⟩
    · exact hbody entry (hs.body_eq ▸ hr)
    · exact hlog entry hr

/-- A chain from which a definition may start. -/
inductive Initial : Chain → Prop where
  | new : Initial {}
  | built (b : Blueprint) : Initial b.build

/-- A chain that a run of a script passes through, in a body or outside. -/
def Reachable (c : Chain) : Prop :=
  ∃ start b s, Initial start ∧
    (c = (run start b s).chain ∨
      ∃ entry, Recorded entry (run start b s).log ∧ (c = entry.before ∨ c = entry.after))

theorem Reachable.invariant {P : Chain → Prop} (hP : Invariant P)
    (hstart : ∀ c, Initial c → P c) {c : Chain} (h : Reachable c) : P c := by
  obtain ⟨start, b, s, hs, h⟩ := h
  obtain ⟨hend, hlog⟩ := (run_trace start b s).invariant hP (hstart start hs)
  obtain rfl | ⟨entry, hr, rfl | rfl⟩ := h
  · exact hend
  · exact (hlog entry hr).1
  · exact (hlog entry hr).2

end Script
end StepGraph
