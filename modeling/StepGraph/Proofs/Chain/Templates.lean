import StepGraph.Proofs.Chain.Compile
import StepGraph.Proofs.Param.Leaves
import StepGraph.Proofs.Reference.Derived

/-!
# What a graph reads is what the chain refers to

The references of a chain are values, and those of its graph are found by a scan of its texts. Both
tell the same (`templatePaths_of_compile`), if the literals of the step have no doubled opening
brace and if its references are derived from roots, without braces and without a blank at the end.
The names of steps are cut out of the paths where the references cut them (`stepRoot?_eq`).
-/

namespace StepGraph

/-! ## Names in paths -/

namespace Graph

/-- A graph cuts the name of a step out of a path where a reference does. -/
theorem stepRoot?_eq (path : String) : stepRoot? path = Reference.stepName ⟨path⟩ := by
  have hcut (rest : List Char) :
      rest.take (rest.findIdx endsName) = rest.takeWhile (!Root.isSeparator ·) := by
    rw [List.takeWhile_eq_take_findIdx_not]
    simp only [Bool.not_not]
    rfl
  have hmark : Root.afterSteps? path.toList = stepsMark.isPrefixOf? path.toList := rfl
  unfold stepRoot? Reference.stepName Reference.stepNameOfPath
  rw [hmark]
  cases stepsMark.isPrefixOf? path.toList with
  | none => rfl
  | some rest =>
    simp only [hcut]
    split <;> rfl

/-- Names that are there already do not come again. -/
theorem foldl_distinct (found names : List String) :
    names.foldl (fun found name => if found.contains name then found else found ++ [name]) found =
      found ++ (names.filter (!found.contains ·)).eraseDups := by
  induction names generalizing found with
  | nil => simp
  | cons name names ih =>
    rw [List.foldl_cons]
    by_cases h : found.contains name = true
    · rw [if_pos h, ih, List.filter_cons_of_neg (by simpa using h)]
    · have hnew : ∀ n, (!(found ++ [name]).contains n) = (!n == name && !found.contains n) := by
        intro n
        rw [Bool.eq_iff_iff]
        simp [and_comm]
      rw [if_neg h, ih, List.filter_cons_of_pos (by simpa using h), List.eraseDups_cons,
        List.filter_filter, List.append_assoc, List.singleton_append]
      simp only [hnew]

/-- A name is kept where it comes first. -/
theorem distinct_eq_eraseDups (names : List String) : distinct names = names.eraseDups := by
  have h := foldl_distinct [] names
  simpa [distinct] using h

end Graph

/-! ## The leaves of a step -/

/-- What becomes a text in the condition. -/
def Condition.leaves (c : Condition) : List Leaf := c.references.map .reference

/-- What becomes a text in the source. -/
def Source.leaves : Source → List Leaf
  | items values => Param.itemLeaves values
  | ref reference => [.reference reference]

theorem Condition.templatePaths_toJson (c : Condition) :
    c.toJson.templatePaths = c.leaves.flatMap Leaf.paths := by
  cases c with
  | literal value => rfl
  | null => rfl
  | ref r => exact (List.append_nil _).symm

theorem Source.templatePaths_of_substitute {location : String} {source : Source} {j : Json}
    (h : source.substitute location = .ok j) :
    j.templatePaths = source.leaves.flatMap Leaf.paths := by
  cases source with
  | items values =>
    obtain ⟨js, hjs, rfl⟩ := map_eq_ok.mp h
    exact Param.templatePaths_of_substituteItems values hjs
  | ref r =>
    cases h
    exact (List.append_nil _).symm

namespace Step

/-- What becomes a text in the parameters, in the condition and in the source of a step. -/
def leaves (s : Step) : List Leaf :=
  Param.memberLeaves s.params ++ (s.condition.map Condition.leaves).getD [] ++
    (s.source.map Source.leaves).getD []

/-- The references of a step: those in the parameters, in the condition and in the source. -/
def allReferences (s : Step) : List Reference :=
  s.references ++ (s.source.map Source.references).getD []

theorem allReferences_eq (s : Step) : s.allReferences = s.leaves.filterMap Leaf.reference? := by
  have hcondition : (s.condition.map Condition.references).getD [] =
      ((s.condition.map Condition.leaves).getD []).filterMap Leaf.reference? := by
    cases s.condition with
    | none => rfl
    | some c => cases c <;> rfl
  have hsource : (s.source.map Source.references).getD [] =
      ((s.source.map Source.leaves).getD []).filterMap Leaf.reference? := by
    cases s.source with
    | none => rfl
    | some source =>
      cases source with
      | items values => exact Param.itemReferences_eq values
      | ref r => rfl
  rw [allReferences, references, leaves, List.filterMap_append, List.filterMap_append,
    Param.memberReferences_eq, hcondition, hsource]

/-- The templates in the wire form of a step are those in its leaves. -/
theorem CompilesTo.templatePaths_eq {s : Step} {location : String} {t : Graph.Step}
    (h : s.CompilesTo location t) : t.templatePaths = s.leaves.flatMap Leaf.paths := by
  have hparams := Param.templatePaths_of_substituteMembers s.params h.params
  have hcondition : Json.itemTemplatePaths t.condition.toList =
      ((s.condition.map Condition.leaves).getD []).flatMap Leaf.paths := by
    rw [h.condition]
    cases s.condition with
    | none => rfl
    | some c => exact (List.append_nil _).trans c.templatePaths_toJson
  have hsource : Json.itemTemplatePaths t.source.toList =
      ((s.source.map Source.leaves).getD []).flatMap Leaf.paths := by
    have hwire := h.source
    cases hs : s.source with
    | none =>
      rw [hs] at hwire
      rw [Option.map_eq_none_iff.mp hwire.symm]
      rfl
    | some source =>
      rw [hs] at hwire
      obtain ⟨j, hj, hok⟩ := Option.map_eq_some_iff.mp hwire.symm
      rw [hj]
      exact (List.append_nil _).trans (Source.templatePaths_of_substitute hok.symm)
  rw [Graph.Step.templatePaths, leaves, List.flatMap_append, List.flatMap_append, hparams,
    hcondition, hsource]

end Step

/-! ## The templates of a graph -/

open Template (openBrace Single)

/-- A reference whose template is found as it is. -/
structure Reference.Scannable (r : Reference) : Prop where
  derived : r.Derived
  braceless : r.Braceless
  unpadded : r.Unpadded

namespace Leaf

theorem paths_literal {text : String} (h : Single openBrace text.toList) :
    (literal text).paths = [] := by
  have hpaths : Template.pathsIn text.toList = [] :=
    Template.pathsIn_of_woven_tight (.literal h) nofun
  show (Template.pathsIn text.toList).map String.ofList = []
  rw [hpaths]
  rfl

theorem paths_reference {r : Reference} (h : r.Scannable) : (reference r).paths = [r.path] := by
  have hclear := Template.clear_of_not_mem h.braceless.2
  have htight := List.forall_mem_singleton.mpr (h.derived.tight h.unpadded)
  have hpaths : Template.pathsIn r.template.toList = [r.path.toList] := by
    rw [Reference.template, String.toList_ofList]
    exact Template.pathsIn_of_woven_tight (Template.woven_ofPath hclear) htight
  show (Template.pathsIn r.template.toList).map String.ofList = [r.path]
  rw [hpaths, List.map_singleton, String.ofList_toList]

/-- Literals add no path to those of the references. -/
theorem flatMap_paths {ls : List Leaf} (href : ∀ r ∈ ls.filterMap reference?, r.Scannable)
    (hliteral : ∀ text, literal text ∈ ls → Single openBrace text.toList) :
    ls.flatMap paths = (ls.filterMap reference?).map (·.path) := by
  induction ls with
  | nil => rfl
  | cons l ls ih =>
    have hliterals : ∀ text, literal text ∈ ls → Single openBrace text.toList :=
      fun text h => hliteral text (List.mem_cons_of_mem _ h)
    rw [List.flatMap_cons]
    cases l with
    | literal text =>
      rw [paths_literal (hliteral text (List.mem_cons_self ..)), List.nil_append]
      exact ih href hliterals
    | reference r =>
      obtain ⟨hr, hrs⟩ := List.forall_mem_cons.mp href
      rw [paths_reference hr, ih hrs hliterals]
      rfl

end Leaf

namespace Chain

/-- The templates of a compiled step are the references of the step, in the order of the parameters,
the condition and the source, and its dependencies are the steps that these references reach into,
each once. The references must be scannable, and no literal may open a template itself. -/
theorem templatePaths_of_compile {c : Chain} {g : Graph} (hg : c.compile = .ok g) {i : Nat}
    {s : Step} (hs : c.steps[i]? = some s) (hrefs : ∀ r ∈ s.allReferences, r.Scannable)
    (hliterals : ∀ text, .literal text ∈ s.leaves → Single openBrace text.toList) :
    ∃ t, g.steps[i]? = some t ∧ t.templatePaths = s.allReferences.map (·.path) ∧
      t.dependencies = (s.allReferences.filterMap Reference.stepName).eraseDups := by
  obtain ⟨steps, output, hsteps, -, rfl⟩ := compile_eq_ok hg
  obtain ⟨t, ht, hcompile⟩ := compileSteps_getElem? hsteps hs
  have hpaths : t.templatePaths = s.allReferences.map (·.path) := by
    rw [Step.allReferences_eq] at hrefs ⊢
    rw [(Step.compile_eq_ok hcompile).templatePaths_eq]
    exact Leaf.flatMap_paths hrefs hliterals
  refine ⟨t, ht, hpaths, ?_⟩
  have hroots : s.allReferences.filterMap (Graph.stepRoot? ∘ (·.path)) =
      s.allReferences.filterMap Reference.stepName :=
    List.filterMap_congr fun r _ => Graph.stepRoot?_eq r.path
  rw [Graph.Step.dependencies, Graph.distinct_eq_eraseDups, hpaths, List.filterMap_map, hroots]

/-- A step with literals and references at several depths, a condition and a source. -/
def scannedStep : Step where
  name := "summarize"
  transformation := "prompt_completion"
  params := [
    ("prompt", .array [.ref ((Reference.stepOutput "fetch").field "body"),
      .string "a \x7b and \x7d\x7d", .object [("at", .ref .foreachIndex)]]),
    ("model", .ref (Reference.params.index "model"))]
  condition := some (.ref (.stepOutput "check"))
  source := some (.ref ((Reference.stepOutput "fetch").fieldPath "pages.*"))

theorem templatePaths_of_scannedStep :
    (∀ r ∈ scannedStep.allReferences, r.Scannable) ∧
      (∀ text, .literal text ∈ scannedStep.leaves → Single openBrace text.toList) ∧
      ∃ g t, Chain.compile { steps := [scannedStep] } = .ok g ∧ g.steps[0]? = some t ∧
        t.templatePaths = ["steps.fetch.output.body", "foreach.index", "params.model",
          "steps.check.output", "steps.fetch.output.pages[*]"] ∧
        t.dependencies = ["fetch", "check"] := by
  have hrefs : ∀ r ∈ scannedStep.allReferences, r.Scannable := by
    have hbody : ((Reference.stepOutput "fetch").field "body").Scannable :=
      ⟨⟨_, .stepOutput "fetch", [.field "body"], rfl⟩, by decide, by decide⟩
    have hindex : Reference.foreachIndex.Scannable :=
      ⟨⟨_, .foreachIndex, [], rfl⟩, by decide, by decide⟩
    have hmodel : (Reference.params.index "model").Scannable :=
      ⟨⟨_, .params, [.index "model"], rfl⟩, by decide, by decide⟩
    have hcheck : (Reference.stepOutput "check").Scannable :=
      ⟨⟨_, .stepOutput "check", [], rfl⟩, by decide, by decide⟩
    have hpages : ((Reference.stepOutput "fetch").fieldPath "pages.*").Scannable :=
      ⟨⟨_, .stepOutput "fetch", [.fieldPath "pages.*"], rfl⟩, by decide, by decide⟩
    have hall : ∀ r ∈ [_, _, _, _, _], Reference.Scannable r :=
      List.forall_mem_cons.mpr ⟨hbody, List.forall_mem_cons.mpr ⟨hindex,
        List.forall_mem_cons.mpr ⟨hmodel, List.forall_mem_cons.mpr ⟨hcheck,
          List.forall_mem_singleton.mpr hpages⟩⟩⟩⟩
    exact hall
  have hliterals : ∀ text, .literal text ∈ scannedStep.leaves → Single openBrace text.toList := by
    intro text h
    have htext : text = "a \x7b and \x7d\x7d" := by
      simpa [scannedStep, Step.leaves, Param.memberLeaves, Param.leaves, Param.itemLeaves,
        Condition.leaves, Condition.references, Source.leaves] using h
    rw [htext]
    decide
  obtain ⟨t, ht, hpaths, hdependencies⟩ :=
    templatePaths_of_compile (c := { steps := [scannedStep] }) rfl (i := 0) rfl hrefs hliterals
  exact ⟨hrefs, hliterals, _, t, rfl, ht, hpaths.trans rfl, hdependencies.trans rfl⟩

end Chain
end StepGraph
