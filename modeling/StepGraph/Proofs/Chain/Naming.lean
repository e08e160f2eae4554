import StepGraph.Proofs.Chain.Compile
import StepGraph.Proofs.Chain.Trace

/-!
# Step names

* `Chain.Named`: no two steps share a name, and the namer knows the names and how many steps each
  transformation has. It is an invariant (`named_invariant`).
* `names_of_reachable`: it holds of every reachable chain, so a step is found by its name, in the
  chain and in the graph that the chain compiles to.
-/

namespace StepGraph

/-- With distinct keys, the search for the key of an element finds the element. -/
theorem find?_key_of_nodup {α : Type} {f : α → String} {l : List α} (h : (l.map f).Nodup) {x : α}
    (hx : x ∈ l) : l.find? (f · == f x) = some x := by
  induction l with
  | nil => cases hx
  | cons y l ih =>
    rw [List.map_cons, List.nodup_cons] at h
    obtain rfl | hx := List.mem_cons.mp hx
    · simp
    · have hne : f y ≠ f x := fun he => h.1 (he ▸ List.mem_map_of_mem hx)
      rw [List.find?_cons_of_neg (by simpa using hne)]
      exact ih h.2 hx

namespace Chain

/-- Names are distinct, and the namer is in step with the chain. -/
structure Named (c : Chain) : Prop where
  nodup : (c.steps.map (·.name)).Nodup
  taken : ∀ name, name ∈ c.namer.taken ↔ name ∈ c.steps.map (·.name)
  count : ∀ t, c.namer.count t = c.steps.countP (·.transformation == t)

theorem Named.of_agrees {c d : Chain} (ha : d.Agrees c) (h : c.Named) : d.Named := by
  obtain ⟨hn, ht, hc⟩ := h
  rw [← ha.steps] at hn
  constructor
  · exact hn
  · rw [ha.steps, ha.namer]
    exact ht
  · rw [ha.steps, ha.namer]
    exact hc

/-- A step with a free name keeps names distinct and the namer in step. -/
theorem Named.append {c : Chain} (h : c.Named) {s : Step} (hs : s.name ∉ c.namer.taken) :
    Named { c with
      steps := c.steps ++ [s], namer := c.namer.record s.name s.transformation } where
  nodup := by
    rw [List.map_append, List.nodup_append]
    refine ⟨h.nodup, List.pairwise_singleton _ _, ?_⟩
    rintro x hx y hy rfl
    rw [List.map_singleton, List.mem_singleton] at hy
    exact hs ((h.taken s.name).mpr (hy ▸ hx))
  taken name := by
    rw [Namer.mem_taken_record, h.taken, List.map_append, List.mem_append, List.map_singleton,
      List.mem_singleton, or_comm]
  count t := by
    rw [Namer.count_record, h.count, List.countP_append, List.countP_singleton]
    simp only [beq_iff_eq]

theorem named_invariant : Script.Invariant Named where
  agrees := Named.of_agrees
  call := by
    intro c call h
    have he := Call.effect c call
    generalize (call.apply c).1 = outcome, (call.apply c).2 = d at he
    cases he with
    | refused e => exact h
    | silent d hs ha hscope => exact h.of_agrees ha
    | params schema hs hp => exact ⟨h.nodup, h.taken, h.count⟩
    | output o hs ho => exact ⟨h.nodup, h.taken, h.count⟩
    | step s hs hn hr => exact h.append hn

theorem named_of_initial {c : Chain} (h : Script.Initial c) : c.Named := by
  have hempty : c.steps = [] ∧ c.namer = {} := by cases h <;> exact ⟨rfl, rfl⟩
  obtain ⟨hs, hn⟩ := hempty
  constructor
  · simp [hs]
  · simp [hs, hn]
  · intro t
    rw [hs, hn]
    rfl

theorem named_of_reachable {c : Chain} (h : Script.Reachable c) : c.Named :=
  h.invariant named_invariant fun _ => named_of_initial

/-- A step is found by its name. -/
theorem Named.step?_eq {c : Chain} (h : c.Named) {s : Step} (hs : s ∈ c.steps) :
    c.step? s.name = some s :=
  find?_key_of_nodup h.nodup hs

/-- The wire form of a step is found by its name, at the position of the step. -/
theorem Named.compiled_step? {c : Chain} (h : c.Named) {g : Graph} (hg : c.compile = .ok g)
    {i : Nat} {s : Step} (hs : c.steps[i]? = some s) :
    ∃ t, g.steps[i]? = some t ∧ s.CompilesTo (Param.itemLocation stepsLocation i) t ∧
      g.step? s.name = some t := by
  obtain ⟨steps, output, hsteps, -, rfl⟩ := compile_eq_ok hg
  obtain ⟨t, ht, hst⟩ := compileSteps_getElem? hsteps hs
  rw [Nat.zero_add] at hst
  have hc := Step.compile_eq_ok hst
  refine ⟨t, ht, hc, ?_⟩
  rw [← hc.name]
  have hn : (steps.map (·.name)).Nodup := compileSteps_names hsteps ▸ h.nodup
  exact find?_key_of_nodup hn (List.mem_of_getElem? ht)

/-- In a reachable chain names are distinct, and the namer has noted them and the number of steps of
each transformation. So a name finds its step, in the chain and in the graph. -/
theorem names_of_reachable {c : Chain} (h : Script.Reachable c) :
    (c.steps.map (·.name)).Nodup ∧
      (∀ name, c.namer.isTaken name = true ↔ name ∈ c.steps.map (·.name)) ∧
      (∀ t, c.namer.count t = c.steps.countP (·.transformation == t)) ∧
      (∀ s ∈ c.steps, c.step? s.name = some s) ∧
      ∀ g, c.compile = .ok g → ∀ (i : Nat) (s : Step), c.steps[i]? = some s →
        ∃ t, g.steps[i]? = some t ∧ s.CompilesTo (Param.itemLocation stepsLocation i) t ∧
          g.step? s.name = some t := by
  have hn := h.invariant named_invariant fun _ => named_of_initial
  refine ⟨hn.nodup, fun name => ?_, hn.count, fun s => hn.step?_eq, ?_⟩
  · rw [← hn.taken, Namer.isTaken, List.contains_iff_mem]
  · intro g hg i s hs
    exact hn.compiled_step? hg hs

/-- A name that looks like a numbered one, and a name that is given again after its step has been
dropped. -/
def reissuedName : Script :=
  .call (fun _ => .addNamedStep "split_text_2" "custom" []) none .propagate <|
    .iteration (fun _ => .items [])
      (.call (fun _ => .addStep "split_text" []) none .propagate <|
        .call (fun _ => .addStep "split_text" []) none .propagate .done)
      none .ignore <|
    .call (fun _ => .addStep "split_text" []) none .propagate .done

/-- The chain of `reissuedName` is reachable, and its namer knows the two names that are left. -/
theorem names_of_reissuedName :
    Script.Reachable (reissuedName.run {} fun _ => .params).chain ∧
      (reissuedName.run {} fun _ => .params).chain.steps.map (·.name) =
        ["split_text_2", "split_text"] ∧
      ∀ name, (reissuedName.run {} fun _ => .params).chain.namer.isTaken name = true ↔
        name ∈ ["split_text_2", "split_text"] := by
  have h : Script.Reachable (reissuedName.run {} fun _ => .params).chain :=
    ⟨{}, _, reissuedName, .new, .inl rfl⟩
  obtain ⟨-, htaken, -⟩ := names_of_reachable h
  exact ⟨h, rfl, htaken⟩

end Chain
end StepGraph
