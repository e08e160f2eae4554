import StepGraph.Proofs.Chain.Trace
import StepGraph.Proofs.Param.Walk
import StepGraph.Proofs.Reference.Root

/-!
# The output of a chain is not checked for references to an iteration

The element and the position of an iteration are plain references, which outlive the body that they
are meant for. A step that refers to them from outside is refused, but an output is not: it is
stored as it is given, unless there is one already.

* `outputGiven`: the output that a log has set. What a body that fails has set does not stay.
* `Trace.output_eq`: a run leads to the output of its log.
* `output_of_run`: so a chain refers to an iteration in its output if and only if the output has
  been given with such a reference, to a call that stays or in the end.
-/

namespace StepGraph

namespace Output

/-- The reference is the output, or stands in it at any depth. -/
inductive Mentions : Output → Reference → Prop
  | ref (r : Reference) : Mentions (.ref r) r
  | mapping {members : List (String × Param)} {position : Position} {place : String}
      {r : Reference} :
      (Param.object members).At position place (.ref r) → Mentions (.mapping members) r

/-- The output refers to an iteration. -/
def Strays (o : Output) : Prop := ∃ r, o.Mentions r ∧ r.OfIteration

end Output

namespace Call

/-- The output that a call sets if it succeeds. -/
def output? : Call → Option Output
  | defineOutput output => some output
  | _ => none

theorem Effect.output_of_step {c d : Chain} {call : Call} {outcome : Outcome}
    (h : Effect c call outcome d) {s : Step} (hs : call.step? c.namer c.scope = some s) :
    d.output = c.output := by
  cases h with
  | refused e => rfl
  | silent d hnone ha hscope => exact ha.output
  | params schema hnone hp => rfl
  | output o hnone ho =>
    rw [hs] at hnone
    cases hnone
  | step s hs hn hr => rfl

/-- A call that sets no output leaves the one that is there. -/
theorem output_apply_of_none (c : Chain) {call : Call} (h : call.output? = none) :
    (call.apply c).2.output = c.output := by
  cases hs : call.step? c.namer c.scope with
  | some s => exact (effect c call).output_of_step hs
  | none =>
    cases call with
    | setChainId id => rfl
    | setTitle text => rfl
    | setDescription text => rfl
    | setPubliclyTriggerable value => rfl
    | setPublic value => rfl
    | observe => rfl
    | defineParams schema =>
      simp only [apply, Chain.defineParams]
      cases c.params <;> rfl
    | addStep transformation params => cases hs
    | addNamedStep name transformation params => cases hs
    | embedCode inputs source => cases hs
    | defineOutput output => cases h

end Call

namespace Script

mutual

/-- The output that a statement has set and that stays. -/
def Entry.outputGiven : Entry → Option Output
  | ⟨_, _, .error _, _, _⟩ => none
  | ⟨.call operation, _, .ok _, _, _⟩ => operation.output?
  | ⟨.condition _, _, .ok _, _, body⟩ => Script.outputGiven body
  | ⟨.iteration _, _, .ok _, _, body⟩ => Script.outputGiven body

/-- The output that the statements of a log have set and that stays. -/
def outputGiven : List Entry → Option Output
  | [] => none
  | entry :: log => entry.outputGiven.or (outputGiven log)

end

theorem Entry.outputGiven_of_error {entry : Entry} {e : DefinitionError}
    (h : entry.outcome = .error e) : entry.outputGiven = none := by
  obtain ⟨action, before, outcome, after, body⟩ := entry
  cases h
  rw [Entry.outputGiven]

/-- A first output is taken, whatever it refers to. -/
theorem callEntry_defineOutput {c : Chain} (h : c.output = none) (output : Output) :
    callEntry c (.defineOutput output) =
      ⟨.call (.defineOutput output), c, .ok none, { c with output := some output }, []⟩ := by
  simp only [callEntry, Call.apply, Chain.defineOutput, h, Call.done, Except.map]

/-- A second output is refused, whatever it refers to. -/
theorem callEntry_defineOutput_again {c : Chain} {old : Output} (h : c.output = some old)
    (output : Output) :
    callEntry c (.defineOutput output) = refusedEntry c (.call (.defineOutput output))
      .outputAlreadyDefined := by
  simp only [callEntry, Call.apply, Chain.defineOutput, h, Call.done, Except.map, refusedEntry]

theorem callEntry_output (c : Chain) (call : Call) :
    (callEntry c call).after.output = c.output.or (callEntry c call).outputGiven := by
  cases h : call.output? with
  | none =>
    have hgiven : (callEntry c call).outputGiven = none := by
      unfold callEntry
      cases call.apply c with
      | mk outcome after =>
        cases outcome with
        | error e => rw [Entry.outputGiven]
        | ok r? => rw [Entry.outputGiven, h]
    rw [hgiven, Option.or_none]
    exact Call.output_apply_of_none c h
  | some output =>
    cases call <;> cases h
    cases hc : c.output with
    | none =>
      rw [callEntry_defineOutput hc, Entry.outputGiven, Call.output?, Option.none_or]
    | some old =>
      rw [callEntry_defineOutput_again hc, Entry.outputGiven_of_error rfl, Option.or_none]
      exact hc

/-- What a body sets stays if the statement around it succeeds. -/
theorem Surrounds.outputGiven_eq {c inner : Chain} {ran : Run} {entry : Entry}
    {r? : Option Reference} (h : Surrounds c inner ran entry) (ho : entry.outcome = .ok r?) :
    entry.outputGiven = outputGiven ran.log := by
  rw [← h.body_eq]
  have hcall := h.action_ne_call
  obtain ⟨action, before, outcome, after, body⟩ := entry
  cases ho
  cases action with
  | call call => exact absurd rfl (hcall call)
  | condition active => rw [Entry.outputGiven]
  | iteration active => rw [Entry.outputGiven]

theorem Surrounds.output_eq {c inner : Chain} {ran : Run} {entry : Entry}
    (h : Surrounds c inner ran entry) (hx : ran.chain.Extends inner)
    (hran : ran.chain.output = inner.output.or (outputGiven ran.log)) :
    entry.after.output = c.output.or entry.outputGiven := by
  cases ho : entry.outcome with
  | error e =>
    rw [(h.agrees_of_error hx ho).output, Entry.outputGiven_of_error ho, Option.or_none]
  | ok r? =>
    rw [(h.agrees_of_ok hx ho).output, hran, h.inner_agrees.output, h.outputGiven_eq ho]

/-- A run leads to the output of its log, behind the one that was there. -/
theorem Trace.output_eq {c d : Chain} {log : List Entry} (h : Trace c log d) :
    d.output = c.output.or (outputGiven log) := by
  induction h with
  | done c => rw [outputGiven, Option.or_none]
  | call call _ ih => rw [ih, callEntry_output, outputGiven, Option.or_assoc]
  | @refused c d log action e hr _ ih =>
    have he : (refusedEntry c action e).outcome = .error e := rfl
    rw [ih, outputGiven, Entry.outputGiven_of_error he, Option.none_or]
  | body hs ht _ ihBody ih =>
    rw [ih, hs.output_eq ht.extends ihBody, outputGiven, Option.or_assoc]

/-- A statement leads to the output that it has set. -/
theorem Executed.output_eq {entry : Entry} (h : Executed entry) :
    entry.after.output = entry.before.output.or entry.outputGiven := by
  cases h with
  | call c call => exact callEntry_output c call
  | @refused c action e hr =>
    have he : (refusedEntry c action e).outcome = .error e := rfl
    rw [Entry.outputGiven_of_error he, Option.or_none]
    rfl
  | body hs ht =>
    rw [hs.before_eq]
    exact hs.output_eq ht.extends ht.output_eq

/-- A definition takes the output that is returned if none has been set, whatever it refers to. -/
theorem Run.exists_define_iff {run : Run} {returned : Bindings → Option Output}
    (P : Option Output → Prop) :
    (∃ c, run.define returned = .ok c ∧ P c.output) ↔
      run.failure = none ∧ (run.chain.output = none ∨ returned run.bindings = none) ∧
        P (run.chain.output.or (returned run.bindings)) := by
  unfold define
  cases run.failure with
  | some e => simp [Chain.conclude]
  | none =>
    cases returned run.bindings with
    | none => simp [Chain.conclude]
    | some o =>
      cases h : run.chain.output <;>
        simp [Chain.conclude, Chain.defineOutput, h, Except.map]

/-- The output of a chain is one that a statement or the end of the definition has given. -/
structure OutputTaken (run : Run) (returned : Bindings → Option Output) : Prop where
  /-- In every state, in bodies too, the output is the one that has been given. -/
  entry : ∀ entry, Recorded entry run.log →
    entry.after.output = entry.before.output.or entry.outputGiven
  chain : run.chain.output = outputGiven run.log
  /-- A call succeeds if there is no output yet. -/
  accepted : ∀ entry, Recorded entry run.log → ∀ o, entry.action = .call (.defineOutput o) →
    (entry.outcome = .ok none ↔ entry.before.output = none)
  /-- A chain refers to an iteration in its output if the output has been given like this. -/
  strays_iff : (∃ c, run.define returned = .ok c ∧ ∃ o, c.output = some o ∧ o.Strays) ↔
    run.failure = none ∧ (outputGiven run.log = none ∨ returned run.bindings = none) ∧
      ∃ o, (outputGiven run.log).or (returned run.bindings) = some o ∧ o.Strays

theorem Executed.defineOutput_accepted {entry : Entry} (h : Executed entry) {o : Output}
    (ha : entry.action = .call (.defineOutput o)) :
    entry.outcome = .ok none ↔ entry.before.output = none := by
  cases h with
  | refused hr => cases hr <;> cases ha
  | body hs ht => exact absurd ha (hs.action_ne_call _)
  | call c operation =>
    cases ha
    cases hc : c.output with
    | none =>
      rw [callEntry_defineOutput hc]
      exact iff_of_true rfl hc
    | some old =>
      rw [callEntry_defineOutput_again hc]
      refine iff_of_false nofun ?_
      simp [refusedEntry, hc]

/-- What a definition gives as the output of its chain is taken as it is, with all the references to
iterations in it. -/
theorem output_of_run {start : Chain} (hstart : Initial start) (b : Bindings) (s : Script)
    (returned : Bindings → Option Output) : OutputTaken (s.run start b) returned := by
  have ht := run_trace start b s
  have hchain : (s.run start b).chain.output = outputGiven (s.run start b).log := by
    rw [ht.output_eq]
    cases hstart <;> exact Option.none_or
  refine ⟨fun entry hr => (ht.executed hr).output_eq, hchain, fun entry hr o ha => ?_, ?_⟩
  · exact (ht.executed hr).defineOutput_accepted ha
  · rw [← hchain]
    exact Run.exists_define_iff fun output? => ∃ o, output? = some o ∧ o.Strays

/-- An iteration that fails with the output of its body, and behind it one whose position is
returned. -/
def positionReturned : Script :=
  .iteration (fun _ => .items [])
    (.call (fun _ => .defineOutput .null) none .propagate <|
      .call (fun _ => .addStep "fetch" []) none .propagate <|
      .call (fun _ => .addStep "fetch" []) none .propagate .done)
    none .ignore <|
    .iteration (fun _ => .items [.string "a"])
      (.call (fun b => .addStep "fetch" [("url", .ref (b "item"))]) none .propagate .done)
      none .propagate .done

/-- The output of the chain has the position in it. -/
theorem output_of_positionReturned :
    ∃ c, (positionReturned.run {} fun _ => .params).define
        (fun b => some (.mapping [("at", .array [.null, .ref (b "index")])])) = .ok c ∧
      ∃ o, c.output = some o ∧ o.Strays := by
  refine (output_of_run .new _ positionReturned _).strays_iff.mpr ⟨rfl, .inl rfl, _, rfl, ?_⟩
  refine ⟨.foreachIndex, ?_, Reference.isIterationScoped_iff.mp (by decide)⟩
  exact .mapping (.member (i := 0) rfl (.item (i := 1) rfl (.here _)))

/-- An iteration, and an output that is a field of its element. -/
def elementAsOutput : Script :=
  .iteration (fun _ => .items [.string "a"])
    (.call (fun b => .addStep "fetch" [("url", .ref (b "item"))]) none .propagate .done)
    none .propagate <|
    .call (fun b => .defineOutput (.ref ((b "item").field "url"))) none .propagate .done

/-- An output outside of the iteration refers to its element. -/
theorem strays_elementAsOutput :
    Reachable (elementAsOutput.run {} fun _ => .params).chain ∧
      ∃ o, (elementAsOutput.run {} fun _ => .params).chain.output = some o ∧ o.Strays :=
  ⟨⟨{}, _, elementAsOutput, .new, .inl rfl⟩, .ref (Reference.foreachItem.field "url"), rfl, _,
    .ref _, Reference.isIterationScoped_iff.mp (by decide)⟩

end Script
end StepGraph
