import StepGraph.Proofs.Chain.Atomicity
import StepGraph.Proofs.Chain.Compile

/-!
# Settings outlive failed iterations

A body that fails takes its steps, names, schema and output with it. What its setters have set
stays: a failed iteration leaves the chain as it was only if the setters of its body lead back to
the old settings.

* `settingsAfter`: the settings that the setters of a log lead to, in bodies too, whether they fail
  or not.
* `Trace.settings_eq`: a run leads to the settings of its log.
* `after_failedIteration`: a failed iteration leaves the chain with these settings and with nothing
  else changed.
-/

namespace StepGraph

/-- What the setters of a chain set. -/
structure Settings where
  chainId : Option String
  title : String
  description : String
  publiclyTriggerable : Bool
  isPublic : Bool
  deriving DecidableEq

namespace Chain

/-- The settings of the chain. -/
def settings (c : Chain) : Settings :=
  ⟨c.chainId, c.title, c.description, c.publiclyTriggerable, c.isPublic⟩

/-- The chain with other settings. -/
def withSettings (c : Chain) (s : Settings) : Chain :=
  { c with
    chainId := s.chainId
    title := s.title
    description := s.description
    publiclyTriggerable := s.publiclyTriggerable
    isPublic := s.isPublic }

/-- Chains with the same definitions, scope and settings are the same. -/
theorem Agrees.eq_withSettings {c d : Chain} (h : d.Agrees c) (hs : d.scope = c.scope) :
    d = c.withSettings d.settings := by
  obtain ⟨hsteps, hnamer, hparams, houtput⟩ := h
  cases d
  cases hsteps
  cases hnamer
  cases hparams
  cases houtput
  cases hs
  rfl

theorem withSettings_eq_self {c : Chain} {s : Settings} :
    c.withSettings s = c ↔ s = c.settings := by
  constructor
  · intro h
    have := congrArg settings h
    exact this
  · rintro rfl
    rfl

/-- Settings are taken over into the graph and have no part in anything else. -/
theorem compile_withSettings (c : Chain) (s : Settings) :
    (c.withSettings s).compile = c.compile.map fun g =>
      { g with
        studioId := (c.withSettings s).studioId
        title := s.title
        description := s.description
        publiclyTriggerable := s.publiclyTriggerable
        isPublic := s.isPublic } := by
  have hsteps : (c.withSettings s).steps = c.steps := rfl
  have houtput : (c.withSettings s).compileOutput = c.compileOutput := rfl
  unfold compile
  rw [hsteps, houtput]
  cases compileSteps 0 c.steps with
  | error e => rfl
  | ok steps =>
    cases c.compileOutput with
    | error e => rfl
    | ok output => rfl

variable {α : Type} (c entry : Chain)

theorem settings_leaveCondition (result : Except DefinitionError α) :
    (c.leaveCondition entry result).2.settings = c.settings := by
  cases result <;> rfl

theorem settings_leaveIteration (result : Except DefinitionError α) :
    (c.leaveIteration entry result).2.settings = c.settings := by
  unfold leaveIteration
  cases result with
  | error e => rfl
  | ok a =>
    simp only
    split
    · split <;> rfl
    · rfl

end Chain

namespace Call

/-- The settings behind a call. -/
def set (settings : Settings) : Call → Settings
  | setChainId id => { settings with chainId := some id }
  | setTitle text => { settings with title := text }
  | setDescription text => { settings with description := text }
  | setPubliclyTriggerable value => { settings with publiclyTriggerable := value }
  | setPublic value => { settings with isPublic := value }
  | _ => settings

theorem settings_pushStep (c : Chain) (name transformation : String)
    (params : List (String × Param)) :
    (done some (c.pushStep name transformation params)).2.settings = c.settings := by
  unfold Chain.pushStep
  simp only
  split <;> rfl

/-- A call that is not a setter keeps the settings. -/
theorem settings_apply (c : Chain) (call : Call) :
    (call.apply c).2.settings = call.set c.settings := by
  cases call with
  | setChainId id => rfl
  | setTitle text => rfl
  | setDescription text => rfl
  | setPubliclyTriggerable value => rfl
  | setPublic value => rfl
  | observe => rfl
  | defineParams schema =>
    simp only [apply, Chain.defineParams]
    cases c.params <;> rfl
  | defineOutput output =>
    simp only [apply, Chain.defineOutput]
    cases c.output <;> rfl
  | addStep transformation params => exact settings_pushStep ..
  | addNamedStep name transformation params =>
    simp only [apply, Chain.addNamedStep]
    split
    · rfl
    · exact settings_pushStep ..
  | embedCode inputs source =>
    simp only [apply, Chain.embedCode]
    split
    · rfl
    · exact settings_pushStep ..

end Call

namespace Script

mutual

/-- The settings behind a statement. The setters in its body count, even if it fails. -/
def Entry.settingsAfter (settings : Settings) : Entry → Settings
  | ⟨.call operation, _, _, _, _⟩ => operation.set settings
  | ⟨.condition _, _, _, _, body⟩ => Script.settingsAfter settings body
  | ⟨.iteration _, _, _, _, body⟩ => Script.settingsAfter settings body

/-- The settings behind a log. -/
def settingsAfter (settings : Settings) : List Entry → Settings
  | [] => settings
  | entry :: log => settingsAfter (entry.settingsAfter settings) log

end

theorem settings_callEntry (c : Chain) (call : Call) :
    (callEntry c call).after.settings = (callEntry c call).settingsAfter c.settings := by
  rw [callEntry, Entry.settingsAfter]
  exact call.settings_apply c

theorem settingsAfter_refusedEntry {c : Chain} {action : Action} {e : DefinitionError}
    (h : Refuses c action e) (settings : Settings) :
    (refusedEntry c action e).settingsAfter settings = settings := by
  cases h <;> rw [refusedEntry, Entry.settingsAfter, settingsAfter]

/-- A body starts with the settings in front of the statement, and its settings stay. -/
theorem Surrounds.settings_eq {c inner : Chain} {ran : Run} {entry : Entry}
    (h : Surrounds c inner ran entry)
    (hran : ran.chain.settings = settingsAfter inner.settings ran.log) :
    entry.after.settings = entry.settingsAfter c.settings := by
  have hinner : inner.settings = c.settings := by rw [h.inner_eq]; rfl
  rw [hinner] at hran
  cases h with
  | condition h =>
    rw [conditionEntry, Entry.settingsAfter, ← hran]
    exact Chain.settings_leaveCondition ..
  | iteration h =>
    rw [iterationEntry, Entry.settingsAfter, ← hran]
    exact Chain.settings_leaveIteration ..

/-- A run leads to the settings of its log. -/
theorem Trace.settings_eq {c d : Chain} {log : List Entry} (h : Trace c log d) :
    d.settings = settingsAfter c.settings log := by
  induction h with
  | done c => rw [settingsAfter]
  | call call _ ih => rw [ih, settings_callEntry, settingsAfter]
  | refused hr _ ih => rw [ih, settingsAfter, settingsAfter_refusedEntry hr]
  | body hs _ _ ihBody ih => rw [ih, hs.settings_eq ihBody, settingsAfter]

/-- A statement leads to the settings of its setters. -/
theorem Executed.settings_eq {entry : Entry} (h : Executed entry) :
    entry.after.settings = entry.settingsAfter entry.before.settings := by
  cases h with
  | call c call => exact settings_callEntry c call
  | refused hr => exact (settingsAfter_refusedEntry hr _).symm
  | body hs ht =>
    rw [hs.before_eq]
    exact hs.settings_eq ht.settings_eq

/-- A failed iteration leaves the chain as it was, with the settings that its body has made. So it
leaves the same chain if and only if these are the old ones. What the chain compiles to changes in
its settings only. -/
theorem after_failedIteration (c : Chain) (b : Bindings) (s : Script) {entry : Entry}
    (hr : Recorded entry (s.run c b).log) {active : Source} (ha : entry.action = .iteration active)
    {e : DefinitionError} (he : entry.outcome = .error e) :
    entry.after = entry.before.withSettings (settingsAfter entry.before.settings entry.body) ∧
      (entry.after = entry.before ↔
        settingsAfter entry.before.settings entry.body = entry.before.settings) ∧
      entry.after.compile = entry.before.compile.map fun g =>
        { g with
          studioId := entry.after.studioId
          title := entry.after.title
          description := entry.after.description
          publiclyTriggerable := entry.after.publiclyTriggerable
          isPublic := entry.after.isPublic } := by
  have hx := (run_trace c b s).executed hr
  have hsettings : entry.after.settings = settingsAfter entry.before.settings entry.body := by
    rw [hx.settings_eq]
    obtain ⟨action, before, outcome, after, body⟩ := entry
    cases ha
    rw [Entry.settingsAfter]
  obtain ⟨hagrees, hscope⟩ := hx.agrees_of_failure he
  have hafter := hagrees.eq_withSettings hscope
  rw [hsettings] at hafter
  rw [hafter]
  exact ⟨rfl, Chain.withSettings_eq_self, entry.before.compile_withSettings _⟩

/-- A body without a step that sets the title. -/
def renamedInIteration : Script :=
  .call (fun _ => .setTitle "Before") none .propagate <|
    .iteration (fun _ => .items [])
      (.call (fun _ => .setTitle "Inside") none .propagate .done)
      none .propagate .done

/-- The new title stays, and nothing else. -/
theorem after_renamedInIteration :
    ∃ entry, Recorded entry (renamedInIteration.run {} fun _ => .params).log ∧
      entry.action = .iteration (.items []) ∧ entry.outcome = .error (.iterationStepCount 0) ∧
      entry.after = entry.before.withSettings ⟨none, "Inside", "", false, false⟩ := by
  have hr : Recorded _ (renamedInIteration.run {} fun _ => .params).log :=
    .here (List.mem_cons_of_mem _ (List.mem_cons_self ..))
  obtain ⟨hafter, -, -⟩ := after_failedIteration {} _ renamedInIteration hr rfl rfl
  exact ⟨_, hr, rfl, rfl, hafter⟩

/-- The title that a failed iteration has set stays, also in what the chain compiles to. -/
theorem title_outlives_failedIteration :
    ∃ entry, Recorded entry (renamedInIteration.run {} fun _ => .params).log ∧
      entry.action = .iteration (.items []) ∧ entry.outcome = .error (.iterationStepCount 0) ∧
      entry.before.title = "Before" ∧ entry.after.title = "Inside" ∧
      entry.after.compile ≠ entry.before.compile := by
  have hr : Recorded _ (renamedInIteration.run {} fun _ => .params).log :=
    .here (List.mem_cons_of_mem _ (List.mem_cons_self ..))
  refine ⟨_, hr, rfl, rfl, rfl, rfl, fun h => ?_⟩
  have htitle := Except.ok.inj (congrArg (Except.map Graph.title) h)
  exact absurd htitle (by decide)

end Script
end StepGraph
