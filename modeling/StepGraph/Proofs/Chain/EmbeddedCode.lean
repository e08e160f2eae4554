import StepGraph.Proofs.Chain.IterationScope

/-!
# Embedded code is not checked for references to an iteration

A step is checked for the references in its parameters. Embedding code makes a text of its inputs
first, and a text has no references. So the inputs of embedded code may refer to an iteration from
outside, where a step with the same references in its parameters is refused.

* `Chain.strays_iff`: a step strays if it would have a reference to an iteration, no matter where.
* `embedCode_scope`: embedded code is refused for the condition that is active and for no input.
-/

namespace StepGraph
namespace Chain

/-- The condition that is active refers to an iteration. -/
def ConditionStrays (c : Chain) : Prop := ∃ r, c.scope.condition = some (.ref r) ∧ r.OfIteration

theorem exists_conditionReference_iff (condition : Option Condition) :
    (∃ r ∈ (condition.map Condition.references).getD [], r.OfIteration) ↔
      ∃ r, condition = some (.ref r) ∧ r.OfIteration := by
  rcases condition with - | value | - | r <;> simp [Condition.references]

/-- Outside of iterations, a step strays because of a parameter or because of the condition. -/
theorem strays_iff {c : Chain} (h : c.scope.source = none) (params : List (String × Param)) :
    c.Strays params ↔
      (∃ r ∈ Param.memberReferences params, r.OfIteration) ∨ c.ConditionStrays := by
  have hfinds := Step.finds_stray? (s := c.stepFor "" "" params) h
  have hsome : c.Strays params ↔ (c.stepFor "" "" params).stray?.isSome = true := by
    rw [hfinds.isSome_iff]
    exact ⟨fun hs => hs.2, fun hs => ⟨h, hs⟩⟩
  have hiterated : (c.stepFor "" "" params).isIterated = false := by
    simp [Step.isIterated, stepFor, h]
  rw [hsome, Step.stray?, hiterated, if_neg (by simp), List.find?_isSome]
  simp only [Reference.isIterationScoped_iff, Step.references, List.mem_append, or_and_right,
    exists_or]
  exact or_congr_right (exists_conditionReference_iff c.scope.condition)

/-- A step is refused for its references if it strays. -/
theorem addStep_refused_iff {c : Chain} (h : c.scope.source = none) (transformation : String)
    (params : List (String × Param)) :
    (∃ step path, c.addStep transformation params =
        (.error (.iterationReferenceOutsideIteration step path), c)) ↔
      (∃ r ∈ Param.memberReferences params, r.OfIteration) ∨ c.ConditionStrays := by
  rw [← strays_iff h params]
  exact (c.scopeChecked_pushStep _ transformation params).refused_iff

theorem embedCode_eq (c : Chain) (inputs : List (String × Reference)) {source : String}
    (hcode : Text.trim source.toList ≠ []) :
    c.embedCode inputs source = c.addStep InlineCode.transformation
      [("code", .string (InlineCode.wrap inputs (String.ofList (Text.trim source.toList))))] := by
  unfold embedCode
  dsimp only
  rw [if_neg]
  simpa using hcode

/-- Outside of iterations, embedded code is refused for its references if the condition refers to an
iteration, whatever the inputs refer to. Otherwise it is added. A step with the same references in
its parameters is refused for these as well. -/
theorem embedCode_scope {c : Chain} (h : c.scope.source = none)
    (inputs : List (String × Reference)) {source : String}
    (hcode : Text.trim source.toList ≠ []) :
    ((∃ step path, c.embedCode inputs source =
        (.error (.iterationReferenceOutsideIteration step path), c)) ↔ c.ConditionStrays) ∧
    (¬c.ConditionStrays → ∃ r d s, c.embedCode inputs source = (.ok r, d) ∧
      d.steps = c.steps ++ [s] ∧ s.name = c.namer.nextName InlineCode.transformation) ∧
    ∀ transformation params, Param.memberReferences params = inputs.map Prod.snd →
      ((∃ step path, c.addStep transformation params =
          (.error (.iterationReferenceOutsideIteration step path), c)) ↔
        (∃ input ∈ inputs, input.2.OfIteration) ∨ c.ConditionStrays) := by
  rw [embedCode_eq c inputs hcode]
  -- The text of the code is no reference.
  have hstrays (text : String) : c.Strays [("code", .string text)] ↔ c.ConditionStrays := by
    rw [strays_iff h]
    simp [Param.memberReferences, Param.references]
  have hchecked := c.scopeChecked_pushStep (c.namer.nextName InlineCode.transformation)
    InlineCode.transformation
    [("code", .string (InlineCode.wrap inputs (String.ofList (Text.trim source.toList))))]
  refine ⟨?_, fun hcondition => hchecked.added (mt (hstrays _).mp hcondition), ?_⟩
  · rw [← hstrays]
    exact hchecked.refused_iff
  · intro transformation params hparams
    rw [addStep_refused_iff h, hparams]
    refine or_congr_left ⟨?_, ?_⟩
    · rintro ⟨r, hr, hscoped⟩
      obtain ⟨input, hinput, rfl⟩ := List.mem_map.mp hr
      exact ⟨input, hinput, hscoped⟩
    · rintro ⟨input, hinput, hscoped⟩
      exact ⟨input.2, List.mem_map_of_mem hinput, hscoped⟩

/-- A chain behind an iteration, under a condition that refers to its element. -/
def underElement : Chain :=
  { afterIteration with
    scope := { afterIteration.scope with condition := some (.ref (.field .foreachItem "ok")) } }

/-- The condition has embedded code refused. -/
theorem embedCode_scope_underElement :
    underElement.scope.source = none ∧ Text.trim "(p) => p".toList ≠ [] ∧
      ∃ step path, underElement.embedCode [("x", .params)] "(p) => p" =
        (.error (.iterationReferenceOutsideIteration step path), underElement) := by
  have hcode : Text.trim "(p) => p".toList ≠ [] := by decide
  have hscope := embedCode_scope (c := underElement) rfl [("x", .params)] hcode
  refine ⟨rfl, hcode, hscope.1.mpr ⟨_, rfl, ?_⟩⟩
  exact Reference.isIterationScoped_iff.mp (by decide)

/-- Behind the iteration its element is taken as an input of embedded code, and refused as a
parameter. -/
theorem embedCode_of_afterIteration :
    Script.Reachable afterIteration ∧ afterIteration.scope.source = none ∧
      Reference.foreachItem.OfIteration ∧
      (∃ r d, afterIteration.embedCode [("x", .foreachItem)] "(p) => p" = (.ok r, d) ∧
        d.steps.length = afterIteration.steps.length + 1) ∧
      afterIteration.addStep "api_call" [("x", .ref .foreachItem)] =
        (.error (.iterationReferenceOutsideIteration "api_call" "foreach.item"), afterIteration) :=
  ⟨⟨{}, _, usedInIteration, .new, .inl rfl⟩, rfl, Reference.isIterationScoped_iff.mp (by decide),
    ⟨_, _, rfl, rfl⟩, rfl⟩

end Chain
end StepGraph
