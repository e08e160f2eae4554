import StepGraph.Proofs.Chain.Trace
import StepGraph.Proofs.Param.Walk
import StepGraph.Proofs.Reference.Root

/-!
# References to an iteration stay in it

The element and the position of an iteration only exist while it runs, so a step that is not
iterated must not refer to them.

* `StrayAt`: where such references stand in a step, in the order in which they are looked for.
* `Chain.ScopeChecked`: a step with a stray reference is refused, with the first one in the error.
* `references_of_reachable`: calls that add a step are checked, and no step of a reachable chain has
  a stray reference.
-/

namespace StepGraph

/-- A reference to an iteration in the parameters of a step or in its condition. The condition comes
behind the parameters. -/
inductive StrayAt (params : List (String × Param)) (condition : Option Condition) :
    Position → Reference → Prop where
  | param {position : Position} {place : String} {r : Reference} :
      (Param.object params).At position place (.ref r) → r.OfIteration →
      StrayAt params condition (0 :: position) r
  | condition {r : Reference} : condition = some (.ref r) → r.OfIteration →
      StrayAt params condition [1] r

/-- The test that the references of a step that is not iterated have to fail. -/
abbrev Reference.scoped (r : Reference) : Bool := r.root.isIterationScoped

section

variable {params : List (String × Param)} {condition : Option Condition} {position : Position}
  {r : Reference}

theorem strayAt_iff :
    StrayAt params condition position r ↔
      (∃ q, position = 0 :: q ∧ (Param.object params).Passes Reference.scoped q r) ∨
        ∃ q, position = 1 :: q ∧ q = [] ∧ condition = some (.ref r) ∧ r.scoped = true := by
  constructor
  · rintro (⟨h, hr⟩ | ⟨h, hr⟩)
    · exact .inl ⟨_, rfl, ⟨_, h⟩, Reference.isIterationScoped_iff.mpr hr⟩
    · exact .inr ⟨[], rfl, rfl, h, Reference.isIterationScoped_iff.mpr hr⟩
  · rintro (⟨q, rfl, ⟨place, h⟩, hr⟩ | ⟨q, rfl, rfl, h, hr⟩)
    · exact .param h (Reference.isIterationScoped_iff.mp hr)
    · exact .condition h (Reference.isIterationScoped_iff.mp hr)

/-- A condition refers to one value or to none. -/
theorem finds_condition (test : Reference → Bool) (condition : Option Condition) :
    Finds (fun q r => q = [] ∧ condition = some (.ref r) ∧ test r = true)
      (((condition.map Condition.references).getD []).find? test) := by
  rcases condition with - | value | - | s
  · exact Finds.none_iff.mpr (by simp)
  · exact Finds.none_iff.mpr (by simp)
  · exact Finds.none_iff.mpr (by simp)
  · simp only [Option.map_some, Option.getD_some, Condition.references, List.find?_singleton]
    split
    · rename_i hs
      exact ⟨[], ⟨rfl, rfl, hs⟩, fun q _ _ => Position.root_le q⟩
    · rename_i hs
      refine Finds.none_iff.mpr ?_
      rintro q r ⟨-, hr, htest⟩
      cases hr
      exact hs htest

/-- The search through a step that is not iterated finds the first stray reference. -/
theorem Step.finds_stray? {s : Step} (hs : s.source = none) :
    Finds (StrayAt s.params s.condition) s.stray? := by
  have hparams := Param.finds_references Reference.scoped (.object s.params)
  have hcondition := finds_condition Reference.scoped s.condition
  unfold stray? isIterated references
  rw [hs, List.find?_append]
  exact (hparams.children hcondition).of_iff fun _ _ => strayAt_iff

end

namespace Chain

/-- A step with these parameters would refer to an iteration from outside: nothing is iterated over,
and there is a stray reference in the parameters or in the active condition. -/
def Strays (c : Chain) (params : List (String × Param)) : Prop :=
  c.scope.source = none ∧ ∃ position r, StrayAt params c.scope.condition position r

/-- What adding a step under `name` gives. It is refused for its references exactly if it strays:
the error has the first stray reference and the name that the step gets otherwise, and the chain
stays as it was. -/
structure ScopeChecked (c : Chain) (name : String) (params : List (String × Param))
    (result : Except DefinitionError Reference × Chain) : Prop where
  refused_iff : (∃ step path,
    result = (.error (.iterationReferenceOutsideIteration step path), c)) ↔ c.Strays params
  first : ∀ step path, result.1 = .error (.iterationReferenceOutsideIteration step path) →
    step = name ∧ ∃ position r, IsFirst (StrayAt params c.scope.condition) position r ∧
      path = r.path
  added : ¬c.Strays params → ∃ r d s, result = (.ok r, d) ∧ d.steps = c.steps ++ [s] ∧ s.name = name

/-- Every step is checked before it is appended. -/
theorem scopeChecked_pushStep (c : Chain) (name transformation : String)
    (params : List (String × Param)) :
    c.ScopeChecked name params (c.pushStep name transformation params) := by
  unfold pushStep
  have hfinds : c.scope.source = none → Finds (StrayAt params c.scope.condition)
      (c.stepFor name transformation params).stray? :=
    Step.finds_stray? (s := c.stepFor name transformation params)
  cases hr : (c.stepFor name transformation params).stray? with
  | some r =>
    simp only [hr]
    have hnone : c.scope.source = none := by
      unfold Step.stray? at hr
      split at hr
      · cases hr
      · rename_i h
        simpa [Step.isIterated, stepFor] using h
    obtain ⟨position, hfirst⟩ := hr ▸ hfinds hnone
    have hstray : c.Strays params := ⟨hnone, position, r, hfirst.here⟩
    refine ⟨iff_of_true ⟨name, r.path, rfl⟩ hstray, ?_, fun h => absurd hstray h⟩
    rintro step path h
    cases h
    exact ⟨rfl, position, r, hfirst, rfl⟩
  | none =>
    simp only [hr]
    have hstray : ¬c.Strays params := by
      rintro ⟨hnone, position, r, h⟩
      exact Finds.none_iff.mp (hr ▸ hfinds hnone) position r h
    refine ⟨iff_of_false ?_ hstray, ?_, fun _ => ⟨_, _, _, rfl, rfl, rfl⟩⟩
    · rintro ⟨step, path, h⟩
      cases h
    · rintro step path h
      cases h

/-- No step that is not iterated refers to an iteration. -/
def NoStray (c : Chain) : Prop := ∀ s ∈ c.steps, s.stray? = none

theorem noStray_invariant : Script.Invariant NoStray where
  agrees := by
    intro c d ha h
    unfold NoStray
    rwa [ha.steps]
  call := by
    intro c call h
    have he := Call.effect c call
    generalize (call.apply c).1 = outcome, (call.apply c).2 = d at he
    cases he with
    | refused e => exact h
    | silent d hs ha hscope =>
      unfold NoStray
      rwa [ha.steps]
    | params schema hs hp => exact h
    | output o hs ho => exact h
    | step s hs hn hr =>
      intro s' hs'
      obtain hs' | hs' := List.mem_append.mp hs'
      · exact h s' hs'
      · rwa [List.mem_singleton.mp hs']

theorem noStray_of_initial {c : Chain} (h : Script.Initial c) : c.NoStray := by
  cases h <;> exact nofun

/-- In a reachable chain no step that is not iterated refers to an iteration. A step that would is
refused, with its name and the first such reference. -/
theorem references_of_reachable {c : Chain} (h : Script.Reachable c) :
    (∀ s ∈ c.steps, s.source = none → ∀ position r, ¬StrayAt s.params s.condition position r) ∧
      (∀ transformation params, c.ScopeChecked (c.namer.nextName transformation) params
        (c.addStep transformation params)) ∧
      ∀ name transformation params, c.namer.isTaken name = false →
        c.ScopeChecked name params (c.addNamedStep name transformation params) := by
  have hstray := h.invariant noStray_invariant fun _ => noStray_of_initial
  refine ⟨fun s hs hsource => ?_, fun transformation params => ?_, ?_⟩
  · have hfinds := Step.finds_stray? hsource
    rw [hstray s hs] at hfinds
    exact Finds.none_iff.mp hfinds
  · exact c.scopeChecked_pushStep _ transformation params
  · intro name transformation params hname
    unfold addNamedStep
    rw [if_neg (by simp [hname])]
    exact c.scopeChecked_pushStep name transformation params

/-- An iteration whose step refers to the element, and behind it a step that is refused because of
the condition it stands under. -/
def usedInIteration : Script :=
  .iteration (fun _ => .items [.string "a"])
    (.call (fun b => .addStep "prompt_completion" [("prompt", .ref (b "item"))]) none .propagate
      .done)
    none .propagate <|
    .condition (fun b => .ref ((b "item").field "ok"))
      (.call (fun _ => .addStep "api_call" []) none .ignore .done)
      none .propagate .done

/-- The chain behind the iteration. -/
def afterIteration : Chain := (usedInIteration.run {} fun _ => .params).chain

/-- Parameters with two references to the iteration. -/
def usedOutside : List (String × Param) :=
  [("body", .object [("at", .array [.ref .params, .ref (Reference.foreachIndex.field "0")])]),
    ("item", .ref .foreachItem)]

/-- The step of the iteration stays, and the one that has the references outside is refused because
of the first of them. -/
theorem references_of_afterIteration :
    Script.Reachable afterIteration ∧ afterIteration.steps.map (·.name) = ["prompt_completion"] ∧
      (∀ s ∈ afterIteration.steps, s.source = none →
        ∀ position r, ¬StrayAt s.params s.condition position r) ∧
      afterIteration.namer.isTaken "late" = false ∧
      afterIteration.addNamedStep "late" "api_call" usedOutside =
        (.error (.iterationReferenceOutsideIteration "late" "foreach.index.0"), afterIteration) ∧
      ∃ position r, IsFirst (StrayAt usedOutside none) position r ∧ "foreach.index.0" = r.path := by
  have h : Script.Reachable afterIteration := ⟨{}, _, usedInIteration, .new, .inl rfl⟩
  have hfree : afterIteration.namer.isTaken "late" = false := by decide
  have hrefused : afterIteration.addNamedStep "late" "api_call" usedOutside =
      (.error (.iterationReferenceOutsideIteration "late" "foreach.index.0"), afterIteration) := by
    rfl
  obtain ⟨hsteps, -, hnamed⟩ := references_of_reachable h
  have hfirst := (hnamed "late" "api_call" usedOutside hfree).first _ _ (congrArg Prod.fst hrefused)
  exact ⟨h, rfl, hsteps, hfree, hrefused, hfirst.2⟩

end Chain
end StepGraph
