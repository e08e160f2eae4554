import StepGraph.Chain.Compile
import StepGraph.Proofs.Result

/-!
# What a compiled chain consists of

* `compile_eq_ok`: a chain compiles if its steps and its output do, and the rest is taken over.
* `compileSteps_getElem?`: the step at a position of the graph is the wire form of the one at this
  position of the chain.
* `Step.compile_eq_ok`: what the wire form of a step consists of.
-/

namespace StepGraph

/-- The parts of a compiled step. -/
structure Step.CompilesTo (s : Step) (location : String) (t : Graph.Step) : Prop where
  name : t.name = s.name
  transformation : t.transformation = s.transformation
  params : Param.substituteMembers (Param.memberLocation location "params") s.params = .ok t.params
  condition : t.condition = s.condition.map Condition.toJson
  source : s.source.map (Source.substitute (Param.memberLocation location "foreach")) =
    t.source.map .ok

theorem Step.compile_eq_ok {s : Step} {location : String} {t : Graph.Step}
    (h : s.compile location = .ok t) : s.CompilesTo location t := by
  obtain ⟨params, hparams, h⟩ := bind_eq_ok.mp h
  cases hs : s.source with
  | none =>
    rw [hs] at h
    cases h
    exact ⟨rfl, rfl, hparams, rfl, by rw [hs]; rfl⟩
  | some source =>
    rw [hs] at h
    obtain ⟨wire, hwire, h⟩ := bind_eq_ok.mp h
    obtain ⟨j, hj, rfl⟩ := map_eq_ok.mp hwire
    cases h
    exact ⟨rfl, rfl, hparams, rfl, by rw [hs]; exact congrArg some hj⟩

namespace Chain

theorem compile_eq_ok {c : Chain} {g : Graph} (h : c.compile = .ok g) :
    ∃ steps output, compileSteps 0 c.steps = .ok steps ∧ c.compileOutput = .ok output ∧
      g = { studioId := c.studioId, title := c.title, description := c.description,
            parameters := c.params.getD [], steps := steps, output := output,
            publiclyTriggerable := c.publiclyTriggerable, isPublic := c.isPublic } := by
  obtain ⟨steps, hsteps, h⟩ := bind_eq_ok.mp h
  obtain ⟨output, houtput, h⟩ := bind_eq_ok.mp h
  cases h
  exact ⟨steps, output, hsteps, houtput, rfl⟩

theorem compileSteps_cons {index : Nat} {s : Step} {rest : List Step} {ts : List Graph.Step}
    (h : compileSteps index (s :: rest) = .ok ts) :
    ∃ t ts', s.compile (Param.itemLocation stepsLocation index) = .ok t ∧
      compileSteps (index + 1) rest = .ok ts' ∧ ts = t :: ts' := by
  obtain ⟨t, ht, h⟩ := bind_eq_ok.mp h
  obtain ⟨ts', hts, h⟩ := bind_eq_ok.mp h
  cases h
  exact ⟨t, ts', ht, hts, rfl⟩

/-- Steps keep their positions. -/
theorem compileSteps_getElem? {index : Nat} {ss : List Step} {ts : List Graph.Step}
    (h : compileSteps index ss = .ok ts) {k : Nat} {s : Step} (hs : ss[k]? = some s) :
    ∃ t, ts[k]? = some t ∧ s.compile (Param.itemLocation stepsLocation (index + k)) = .ok t := by
  induction ss generalizing index ts k with
  | nil => cases hs
  | cons s' rest ih =>
    obtain ⟨t, ts', ht, hts, rfl⟩ := compileSteps_cons h
    cases k with
    | zero =>
      cases hs
      exact ⟨t, rfl, ht⟩
    | succ k =>
      obtain ⟨u, hu, hc⟩ := ih hts hs
      exact ⟨u, hu, by rwa [Nat.add_right_comm] at hc⟩

/-- Every step of the graph is the wire form of one of the chain. -/
theorem exists_of_mem_compileSteps {index : Nat} {ss : List Step} {ts : List Graph.Step}
    (h : compileSteps index ss = .ok ts) {t : Graph.Step} (ht : t ∈ ts) :
    ∃ s ∈ ss, ∃ location, s.CompilesTo location t := by
  induction ss generalizing index ts with
  | nil =>
    cases h
    cases ht
  | cons s rest ih =>
    obtain ⟨u, us, hu, hus, rfl⟩ := compileSteps_cons h
    rcases List.mem_cons.mp ht with rfl | ht
    · exact ⟨s, List.mem_cons_self .., _, Step.compile_eq_ok hu⟩
    · obtain ⟨s', hs', location, hcompiles⟩ := ih hus ht
      exact ⟨s', List.mem_cons_of_mem _ hs', location, hcompiles⟩

/-- Steps keep their names. -/
theorem compileSteps_names {index : Nat} {ss : List Step} {ts : List Graph.Step}
    (h : compileSteps index ss = .ok ts) : ts.map (·.name) = ss.map (·.name) := by
  induction ss generalizing index ts with
  | nil => cases h; rfl
  | cons s rest ih =>
    obtain ⟨t, ts', ht, hts, rfl⟩ := compileSteps_cons h
    rw [List.map_cons, List.map_cons, ih hts, (Step.compile_eq_ok ht).name]

end Chain
end StepGraph
