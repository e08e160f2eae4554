import StepGraph.Proofs.Chain.LiveText

/-!
# Steps read from earlier steps

If a script uses live references only, every step of the graph depends on earlier steps
(`dependencies_precede`), although steps may be dropped again and their names given to other ones,
and although the dependencies are read off texts. A key of embedded code is escaped as a JSON
string, and with it the templates in it. So these may reach into steps only whose names are not
changed by this; others are read as names of no step (`dependencies_quotedName`).

* `Entry.Grounded`: what a statement is given refers to what is there.
* `Ordered`: steps in the order in which they were added, each with texts that read from those
  before it.
* `Chain.Sound`: the invariant, which also holds of what is active.
-/

namespace StepGraph

variable {steps : List Step} {iterating : Prop}

/-! ## Steps in order -/

/-- The texts of every step read from the steps before it. -/
inductive Ordered : List Step → Prop
  | nil : Ordered []
  | snoc {steps : List Step} {s : Step} : Ordered steps →
      (∀ l ∈ s.leaves, ReadsFrom steps True l.text.toList) → Ordered (steps ++ [s])

theorem Ordered.readsFrom (h : Ordered steps) {i : Nat} {s : Step} (hs : steps[i]? = some s) :
    ∀ l ∈ s.leaves, ReadsFrom (steps.take i) True l.text.toList := by
  induction h with
  | nil => cases hs
  | @snoc steps last _ hlast ih =>
    rcases Nat.lt_or_ge i steps.length with hi | hi
    · rw [List.getElem?_append_left hi] at hs
      rw [List.take_append_of_le_length (Nat.le_of_lt hi)]
      exact ih hs
    · rw [List.getElem?_append_right hi, List.getElem?_singleton] at hs
      split at hs
      · rename_i hzero
        cases hs
        have hi : i = steps.length := by omega
        rw [hi, List.take_left' rfl]
        exact hlast
      · cases hs

/-- What becomes a text of what is active. -/
def Scope.leaves (scope : Scope) : List Leaf :=
  (scope.condition.map Condition.leaves).getD [] ++ (scope.source.map Source.leaves).getD []

namespace Call

/-- What becomes a text of what a call is given: the parameters of a step, or the function and the
keys of embedded code. -/
def leaves : Call → List Leaf
  | addStep _ params | addNamedStep _ _ params => Param.memberLeaves params
  | embedCode inputs source => .literal source :: inputs.map (.literal ·.1)
  | _ => []

/-- The keys and references of embedded code. -/
def inputs : Call → List (String × Reference)
  | embedCode inputs _ => inputs
  | _ => []

theorem leaves_step? {namer : Namer} {scope : Scope} {call : Call} {s : Step}
    (h : call.step? namer scope = some s) :
    s.leaves = Param.memberLeaves s.params ++ scope.leaves := by
  cases call <;> cases h <;> exact List.append_assoc ..

/-- The parameters of a step that a call adds read from what the call is given. -/
theorem readsFrom_step? {namer : Namer} {scope : Scope} {call : Call} {s : Step}
    (h : call.step? namer scope = some s) (hleaves : ∀ l ∈ call.leaves, l.Grounded steps iterating)
    (hinputs : ∀ input ∈ call.inputs, InlineCode.Readable steps iterating input) :
    ∀ l ∈ Param.memberLeaves s.params, ReadsFrom steps iterating l.text.toList := by
  cases call with
  | addStep transformation params =>
    cases h
    exact fun l hl => (hleaves l hl).readsFrom
  | addNamedStep name transformation params =>
    cases h
    exact fun l hl => (hleaves l hl).readsFrom
  | embedCode inputs source =>
    cases h
    refine List.forall_mem_singleton.mpr (InlineCode.readsFrom_wrap hinputs ?_)
    have hsource := (hleaves (.literal source) (List.mem_cons_self ..)).readsFrom
    rw [String.toList_ofList]
    exact hsource.trim
  | _ => cases h

end Call

namespace Chain

/-- The steps are in order, and what is active reads from them. -/
structure Sound (c : Chain) : Prop where
  ordered : Ordered c.steps
  scope : ∀ l ∈ c.scope.leaves, ReadsFrom c.steps True l.text.toList

variable {c d : Chain}

theorem Sound.of_agrees (h : c.Sound) (ha : d.Agrees c) (hscope : d.scope = c.scope) :
    d.Sound where
  ordered := ha.steps ▸ h.ordered
  scope := by
    rw [ha.steps, hscope]
    exact h.scope

/-- A call that is given live references only keeps the steps in order. -/
theorem Sound.call (h : c.Sound) {call : Call}
    (hleaves : ∀ l ∈ call.leaves, l.Grounded c.steps (c.scope.source.isSome = true))
    (hinputs : ∀ input ∈ call.inputs,
      InlineCode.Readable c.steps (c.scope.source.isSome = true) input) :
    (call.apply c).2.Sound := by
  have he := Call.effect c call
  generalize (call.apply c).1 = outcome, (call.apply c).2 = d at he
  cases he with
  | refused e => exact h
  | silent d hs ha hscope => exact h.of_agrees ha hscope
  | params schema hs hp => exact ⟨h.ordered, h.scope⟩
  | output o hs ho => exact ⟨h.ordered, h.scope⟩
  | step s hs hn hr =>
    constructor
    · refine .snoc h.ordered fun l hl => ?_
      rw [Call.leaves_step? hs] at hl
      rcases List.mem_append.mp hl with hl | hl
      · exact (Call.readsFrom_step? hs hleaves hinputs l hl).mono (List.Subset.refl _)
      · exact h.scope l hl
    · exact fun l hl => (h.scope l hl).mono (List.subset_append_left _ _)

end Chain

namespace Script

/-- What becomes a text of what a statement is given. -/
def Action.leaves : Action → List Leaf
  | .call operation => operation.leaves
  | .condition active => active.leaves
  | .iteration active => active.leaves

/-- The keys and references of embedded code. -/
def Action.inputs : Action → List (String × Reference)
  | .call operation => operation.inputs
  | _ => []

/-- What the statement is given is grounded in the steps that it finds. The references of embedded
code need not be live, as no template is made of them. -/
structure Entry.Grounded (entry : Entry) : Prop where
  leaves : ∀ l ∈ entry.action.leaves,
    l.Grounded entry.before.steps (entry.before.scope.source.isSome = true)
  inputs : ∀ input ∈ entry.action.inputs, input.2.Braceless

/-- The templates in keys of embedded code do not reach into steps whose names a JSON string has to
escape. -/
def Entry.KeepsKeys (entry : Entry) : Prop :=
  ∀ input ∈ entry.action.inputs, (Leaf.literal input.1).Grounded
    (entry.before.steps.filter Step.isVerbatim) (entry.before.scope.source.isSome = true)

/-- A statement that is given one leaf and embeds no code. -/
theorem Entry.grounded_of_leaf {entry : Entry} {l : Leaf} (h : entry.action.leaves = [l])
    (hinputs : entry.action.inputs = [])
    (hl : l.Grounded entry.before.steps (entry.before.scope.source.isSome = true)) :
    entry.Grounded ∧ entry.KeepsKeys := by
  unfold Entry.KeepsKeys
  refine ⟨⟨?_, ?_⟩, ?_⟩
  · rw [h]
    exact List.forall_mem_singleton.mpr hl
  · rw [hinputs]
    exact List.forall_mem_nil _
  · rw [hinputs]
    exact List.forall_mem_nil _

theorem Entry.Grounded.readable {entry : Entry} (h : entry.Grounded) (hkeys : entry.KeepsKeys) :
    ∀ input ∈ entry.action.inputs, InlineCode.Readable entry.before.steps
      (entry.before.scope.source.isSome = true) input :=
  fun input hinput => ⟨hkeys input hinput, h.inputs input hinput⟩

variable {c d : Chain}

/-- A body starts with what its statement has made active. -/
theorem Surrounds.sound_inner {inner : Chain} {ran : Run} {entry : Entry}
    (hs : Surrounds c inner ran entry) (hentry : entry.Grounded) (h : c.Sound) : inner.Sound := by
  rw [hs.inner_eq]
  refine ⟨h.ordered, fun l hl => ?_⟩
  cases hs with
  | condition =>
    rcases List.mem_append.mp hl with hl | hl
    · exact (hentry.leaves l hl).readsFrom.mono (List.Subset.refl _)
    · exact h.scope l (List.mem_append_right _ hl)
  | iteration =>
    rcases List.mem_append.mp hl with hl | hl
    · exact h.scope l (List.mem_append_left _ hl)
    · exact (hentry.leaves l hl).readsFrom.mono (List.Subset.refl _)

/-- Behind a body, the steps are those of the body or those before it, and what was active before it
is active again. -/
theorem Surrounds.sound_after {inner : Chain} {ran : Run} {entry : Entry}
    (hs : Surrounds c inner ran entry) (hx : ran.chain.Extends inner) (h : c.Sound)
    (hran : ran.chain.Sound) : entry.after.Sound where
  ordered := by
    have hagrees {c d : Chain} (ha : d.Agrees c) (hc : Ordered c.steps) : Ordered d.steps :=
      ha.steps ▸ hc
    exact (hs.closes hx).preserves hagrees h.ordered hran.ordered
  scope l hl := by
    have hextends := hs.extends hx
    rw [hextends.scope] at hl
    exact (h.scope l hl).mono hextends.steps.subset

/-- A run of grounded statements keeps the steps in order. -/
theorem Trace.sound {log : List Entry} (ht : Trace c log d)
    (hlog : ∀ entry, Recorded entry log → entry.Grounded ∧ entry.KeepsKeys) (h : c.Sound) :
    d.Sound := by
  induction ht with
  | done c => exact h
  | call call _ ih =>
    obtain ⟨⟨hcall, hkeys⟩, -, hlog⟩ := forall_recorded_cons.mp hlog
    exact ih hlog (h.call hcall.leaves (hcall.readable hkeys))
  | refused _ _ ih =>
    obtain ⟨-, -, hlog⟩ := forall_recorded_cons.mp hlog
    exact ih hlog h
  | body hs ht _ ihBody ih =>
    obtain ⟨⟨hentry, -⟩, hbody, hlog⟩ := forall_recorded_cons.mp hlog
    rw [hs.body_eq] at hbody
    have hran := ihBody hbody (hs.sound_inner hentry h)
    exact ih hlog (hs.sound_after ht.extends h hran)

theorem sound_of_initial {c : Chain} (h : Initial c) : c.Sound := by
  cases h <;> exact ⟨.nil, nofun⟩

end Script

/-! ## Graphs -/

/-- Every step of the graph is the wire form of the step at its position. -/
theorem Chain.exists_of_compile {c : Chain} {g : Graph} (hg : c.compile = .ok g) {i : Nat}
    {t : Graph.Step} (ht : g.steps[i]? = some t) :
    ∃ s location, c.steps[i]? = some s ∧ s.CompilesTo location t := by
  obtain ⟨steps, output, hsteps, -, rfl⟩ := compile_eq_ok hg
  have hlength : steps.length = c.steps.length := by
    simpa using congrArg List.length (compileSteps_names hsteps)
  obtain ⟨hi, -⟩ := List.getElem?_eq_some_iff.mp ht
  have hs : c.steps[i]? = some c.steps[i] := List.getElem?_eq_getElem (hlength ▸ hi)
  obtain ⟨u, hu, hcompile⟩ := compileSteps_getElem? hsteps hs
  rw [ht] at hu
  cases hu
  exact ⟨_, _, hs, Step.compile_eq_ok hcompile⟩

/-- In a graph of steps in order, a step depends on steps before it. -/
theorem Chain.dependencies_of_ordered {c : Chain} (h : Ordered c.steps)
    (hplain : ∀ s ∈ c.steps, s.PlainName) {g : Graph} (hg : c.compile = .ok g) {i : Nat}
    {t : Graph.Step} (ht : g.steps[i]? = some t) {name : String} (hname : name ∈ t.dependencies) :
    ∃ j u, j < i ∧ g.steps[j]? = some u ∧ u.name = name := by
  obtain ⟨s, location, hs, hcompiles⟩ := exists_of_compile hg ht
  -- The name comes from a path in one of the texts, which read from the steps before this one.
  rw [Graph.Step.dependencies, Graph.distinct_eq_eraseDups, List.mem_eraseDups,
    List.mem_filterMap, hcompiles.templatePaths_eq] at hname
  obtain ⟨path, hpath, hname⟩ := hname
  rw [Graph.stepRoot?_eq] at hname
  obtain ⟨l, hl, hpath⟩ := List.mem_flatMap.mp hpath
  have hbefore : ∀ s ∈ c.steps.take i, s.PlainName := fun s hs => hplain s (List.mem_of_mem_take hs)
  obtain ⟨s', hs', rfl⟩ := (h.readsFrom hs l hl).exists_of_stepName hbefore hpath hname
  obtain ⟨j, hj⟩ := List.mem_iff_getElem?.mp hs'
  rw [List.getElem?_take] at hj
  split at hj
  · rename_i hlt
    obtain ⟨steps, output, hsteps, -, rfl⟩ := compile_eq_ok hg
    obtain ⟨u, hu, hcompile⟩ := compileSteps_getElem? hsteps hj
    exact ⟨j, u, hlt, hu, (Step.compile_eq_ok hcompile).name⟩
  · cases hj

namespace Script

/-- If the statements of a script use live references only, in texts too, and a key of embedded code
has templates only of those whose path a JSON string does not change, every name in the dependencies
of a step of the graph is the name of an earlier step. -/
theorem dependencies_precede {start : Chain} (hstart : Initial start) (b : Bindings) (s : Script)
    (hgrounded : ∀ entry, Recorded entry (s.run start b).log → entry.Grounded)
    (hkeys : ∀ entry, Recorded entry (s.run start b).log → entry.KeepsKeys)
    (hplain : ∀ step ∈ (s.run start b).chain.steps, step.PlainName) {g : Graph}
    (hg : (s.run start b).chain.compile = .ok g) {i : Nat} {t : Graph.Step}
    (ht : g.steps[i]? = some t) :
    ∀ name ∈ t.dependencies, ∃ j u, j < i ∧ g.steps[j]? = some u ∧ u.name = name := by
  have hsound := (run_trace start b s).sound
    (fun entry hr => ⟨hgrounded entry hr, hkeys entry hr⟩) (sound_of_initial hstart)
  exact fun name hname => Chain.dependencies_of_ordered hsound.ordered hplain hg ht hname

/-- An iteration whose two steps are dropped, one of which is called like the step behind it. That
one has a literal with two templates, and then there is a step under a condition. The last step is
embedded code, with a template between quotes in its key and another one in its function. -/
def threaded : Script :=
  .call (fun _ => .addStep "fetch" [("url", .ref (Reference.params.field "url"))]) (some "pages")
    .propagate <|
  .iteration (fun b => .ref (b "pages"))
    (.call (fun b => .addStep "split" [("text", .ref (b "item"))]) (some "part") .propagate <|
      .call (fun b => .addStep "count" [("of", .ref ((b "part").each))]) none .propagate .done)
    none .ignore <|
  .call (fun b => .addStep "split" [("text", .string (Template.weave
      [("At ", .params), (": ", (b "pages").field "body")] "."))]) (some "split") .propagate <|
  .condition (fun b => .ref (b "split"))
    (.call (fun b => .addStep "join" [("parts", .ref ((b "split").field "parts"))]) none .propagate
      .done)
    none .propagate <|
  .call (fun b => .embedCode
      [(Template.weave [("\"", b "pages")] "\"", (b "split").field "my parts")]
      (Template.weave [(" (p) => \"", (b "split").field "parts")] "\"\n"))
    none .propagate .done

theorem grounded_threaded : ∀ entry, Recorded entry (threaded.run {} fun _ => .params).log →
    entry.Grounded ∧ entry.KeepsKeys := by
  refine forall_recorded_cons.mpr ⟨?fetch, forall_recorded_nil, ?_⟩
  case fetch =>
    exact Entry.grounded_of_leaf rfl rfl ⟨⟨_, .params, [.field "url"], rfl⟩, by decide⟩
  refine forall_recorded_cons.mpr ⟨?iteration, ?body, ?_⟩
  case iteration =>
    exact Entry.grounded_of_leaf rfl rfl
      ⟨⟨_, .step (List.mem_cons_self ..), [], rfl⟩, by decide⟩
  case body =>
    refine forall_recorded_cons.mpr ⟨?dropped, forall_recorded_nil, ?_⟩
    case dropped => exact Entry.grounded_of_leaf rfl rfl ⟨⟨_, .item rfl, [], rfl⟩, by decide⟩
    refine forall_recorded_cons.mpr ⟨?_, forall_recorded_nil, forall_recorded_nil⟩
    exact Entry.grounded_of_leaf rfl rfl
      ⟨⟨_, .step (List.mem_cons_of_mem _ (List.mem_cons_self ..)), [.each], rfl⟩, by decide⟩
  refine forall_recorded_cons.mpr ⟨?split, forall_recorded_nil, ?_⟩
  case split =>
    refine Entry.grounded_of_leaf rfl rfl (Leaf.grounded_weave ?_ (by decide))
    refine List.forall_mem_cons.mpr ⟨⟨⟨by decide, by decide⟩, ⟨_, .params, [], rfl⟩, by decide⟩, ?_⟩
    refine List.forall_mem_singleton.mpr ⟨⟨by decide, by decide⟩, ?_, by decide⟩
    exact ⟨_, .step (List.mem_cons_self ..), [.field "body"], rfl⟩
  refine forall_recorded_cons.mpr ⟨?condition, ?join, ?_⟩
  case condition =>
    exact Entry.grounded_of_leaf rfl rfl
      ⟨⟨_, .step (List.mem_cons_of_mem _ (List.mem_cons_self ..)), [], rfl⟩, by decide⟩
  case join =>
    refine forall_recorded_cons.mpr ⟨?_, forall_recorded_nil, forall_recorded_nil⟩
    exact Entry.grounded_of_leaf rfl rfl
      ⟨⟨_, .step (List.mem_cons_of_mem _ (List.mem_cons_self ..)), [.field "parts"], rfl⟩,
        by decide⟩
  refine forall_recorded_cons.mpr ⟨?code, forall_recorded_nil, forall_recorded_nil⟩
  case code =>
    have hkey {steps : List Step} {iterating : Prop}
        (hlive : (Reference.stepOutput "fetch").Live steps iterating) : (Leaf.literal
          (Template.weave [("\"", .stepOutput "fetch")] "\"")).Grounded steps iterating := by
      refine Leaf.grounded_weave (List.forall_mem_singleton.mpr ?_) (by decide)
      exact ⟨⟨by decide, by decide⟩, hlive, by decide⟩
    refine ⟨⟨List.forall_mem_cons.mpr ⟨?_, List.forall_mem_singleton.mpr ?_⟩,
      List.forall_mem_singleton.mpr (by decide)⟩, List.forall_mem_singleton.mpr ?_⟩
    · refine Leaf.grounded_weave (List.forall_mem_singleton.mpr ?_) (by decide)
      exact ⟨⟨by decide, by decide⟩, ⟨_, .step (List.mem_cons_of_mem _ (List.mem_cons_self ..)),
        [.field "parts"], rfl⟩, by decide⟩
    · exact hkey ⟨_, .step (List.mem_cons_self ..), [], rfl⟩
    · exact hkey ⟨_, .step (List.mem_filter.mpr ⟨List.mem_cons_self .., rfl⟩), [], rfl⟩

theorem compile_threaded : (threaded.run {} fun _ => .params).chain.compile.toOption.map
    (fun g => g.steps.map fun t => (t.name, t.dependencies)) =
      some [("fetch", []), ("split", ["fetch"]), ("join", ["split"]),
        ("js_code_transformation", ["fetch", "split"])] := by
  decide +kernel

/-- The steps of the graph of `threaded`, with what they depend on. -/
theorem dependencies_precede_threaded :
    (∀ entry, Recorded entry (threaded.run {} fun _ => .params).log → entry.Grounded) ∧
      (∀ entry, Recorded entry (threaded.run {} fun _ => .params).log → entry.KeepsKeys) ∧
      (∀ step ∈ (threaded.run {} fun _ => .params).chain.steps, step.PlainName) ∧
      ∃ g, (threaded.run {} fun _ => .params).chain.compile = .ok g ∧
        (g.steps.map fun t => (t.name, t.dependencies)) =
          [("fetch", []), ("split", ["fetch"]), ("join", ["split"]),
            ("js_code_transformation", ["fetch", "split"])] ∧
        ∀ (i : Nat) (t : Graph.Step), g.steps[i]? = some t → ∀ name ∈ t.dependencies,
          ∃ j u, j < i ∧ g.steps[j]? = some u ∧ u.name = name := by
  have hgrounded := fun entry hr => (grounded_threaded entry hr).1
  have hkeys := fun entry hr => (grounded_threaded entry hr).2
  have hplain : ∀ step ∈ (threaded.run {} fun _ => .params).chain.steps, step.PlainName := by
    decide
  obtain ⟨g, hg, hsteps⟩ := map_toOption_eq_some.mp compile_threaded
  exact ⟨hgrounded, hkeys, hplain, g, hg, hsteps, fun i t =>
    dependencies_precede .new _ threaded hgrounded hkeys hplain hg⟩

/-- Embedded code with a template in its key that reaches into a step with a quote in its name. -/
def quotedName : Script :=
  .call (fun _ => .addNamedStep "my\"step" "fetch" []) (some "page") .propagate <|
  .call (fun b => .embedCode [(Template.weave [("", b "page")] "", .params)] "(p) => p") none
    .propagate .done

theorem grounded_quotedName : ∀ entry, Recorded entry (quotedName.run {} fun _ => .params).log →
    entry.Grounded := by
  refine forall_recorded_cons.mpr ⟨?page, forall_recorded_nil, ?_⟩
  case page => exact ⟨List.forall_mem_nil _, List.forall_mem_nil _⟩
  refine forall_recorded_cons.mpr ⟨?_, forall_recorded_nil, forall_recorded_nil⟩
  refine ⟨List.forall_mem_cons.mpr ⟨?function, List.forall_mem_singleton.mpr ?key⟩,
    List.forall_mem_singleton.mpr (by decide)⟩
  case function => exact ⟨[], .literal (by decide), List.forall_mem_nil _⟩
  case key =>
    refine Leaf.grounded_weave (List.forall_mem_singleton.mpr ?_) (by decide)
    exact ⟨⟨by decide, by decide⟩, ⟨_, .step (List.mem_cons_self ..), [], rfl⟩, by decide⟩

theorem compile_quotedName : (quotedName.run {} fun _ => .params).chain.compile.toOption.map
    (fun g => g.steps.map fun t => (t.name, t.dependencies)) =
      some [("my\"step", []), ("js_code_transformation", ["my\\\"step"])] := by
  decide +kernel

/-- The quote is escaped in the key, and the name that is read there is that of no step. -/
theorem dependencies_quotedName :
    (∀ entry, Recorded entry (quotedName.run {} fun _ => .params).log → entry.Grounded) ∧
      (∀ step ∈ (quotedName.run {} fun _ => .params).chain.steps, step.PlainName) ∧
      ∃ g, (quotedName.run {} fun _ => .params).chain.compile = .ok g ∧
        ∃ (i : Nat) (t : Graph.Step), g.steps[i]? = some t ∧ ∃ name ∈ t.dependencies,
          ¬∃ j u, j < i ∧ g.steps[j]? = some u ∧ u.name = name := by
  have hplain : ∀ step ∈ (quotedName.run {} fun _ => .params).chain.steps, step.PlainName := by
    decide
  obtain ⟨g, hg, hsteps⟩ := map_toOption_eq_some.mp compile_quotedName
  -- The code is the second step.
  have hcode := congrArg (·[1]?) hsteps
  simp only [List.getElem?_map] at hcode
  obtain ⟨t, ht, hpair⟩ := Option.map_eq_some_iff.mp hcode
  refine ⟨grounded_quotedName, hplain, g, hg, 1, t, ht, "my\\\"step", ?_, ?_⟩
  · rw [(Prod.mk.inj hpair).2]
    exact List.mem_singleton.mpr rfl
  · rintro ⟨j, u, -, hu, hname⟩
    have hmem := List.mem_map_of_mem (f := fun t : Graph.Step => (t.name, t.dependencies))
      (List.mem_of_getElem? hu)
    simp only [hname] at hmem
    simp [hsteps] at hmem

end Script
end StepGraph
