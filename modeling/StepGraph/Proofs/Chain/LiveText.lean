import StepGraph.Proofs.Chain.Attribution
import StepGraph.Proofs.Chain.CodeText
import StepGraph.Proofs.Chain.Templates

/-!
# Texts with templates of live references

A reference is live as long as what it reaches into is there: the parameters, a step that the chain
still has, or the iteration that runs. What a chain is given goes into texts, and the names of steps
are read off the templates in these.

* `Leaf.Grounded`: a reference is live, or a literal opens templates of live references only.
* `ReadsFrom`: all templates of a text have paths that start with live roots. Such texts may be put
  together, and the name that a path in one of them tells is that of a step which may be reached
  into (`ReadsFrom.exists_of_stepName`).
* `readsFrom_wrap`: the text of embedded code reads from what its function and its keys read from.
  In it a key is a JSON string, so this needs names of steps that a JSON string has as they are.
-/

namespace StepGraph

open Template (openBrace closeBrace Woven)

/-! ## Live references -/

/-- A root that may be reached into: the parameters, the result of one of the steps or, if something
is iterated over, the iteration. -/
inductive Reference.LiveRoot (steps : List Step) (iterating : Prop) : Reference → Prop
  | params : LiveRoot steps iterating .params
  | step {s : Step} : s ∈ steps → LiveRoot steps iterating s.result
  | item : iterating → LiveRoot steps iterating .foreachItem
  | index : iterating → LiveRoot steps iterating .foreachIndex

/-- The reference reaches into the parameters, into the result of one of the steps or, if something
is iterated over, into the iteration. -/
def Reference.Live (steps : List Step) (iterating : Prop) (r : Reference) : Prop :=
  ∃ root, LiveRoot steps iterating root ∧ root.ReachedFrom r

/-- A live reference without braces in its path. -/
structure Reference.Usable (steps : List Step) (iterating : Prop) (r : Reference) : Prop where
  live : r.Live steps iterating
  braceless : r.Braceless

/-- A usable reference, or a literal that opens templates of usable references only. -/
def Leaf.Grounded (steps : List Step) (iterating : Prop) : Leaf → Prop
  | reference r => r.Usable steps iterating
  | literal text => ∃ rs : List Reference,
    Woven (rs.map (·.path.toList)) text.toList ∧ ∀ r ∈ rs, r.Usable steps iterating

/-- A literal with templates of usable references between its pieces is grounded. -/
theorem Leaf.grounded_weave {steps : List Step} {iterating : Prop}
    {parts : List (String × Reference)} {last : String}
    (hparts : ∀ part ∈ parts,
      Template.Clear openBrace part.1.toList ∧ part.2.Usable steps iterating)
    (hlast : Template.Single openBrace last.toList) :
    (Leaf.literal (Template.weave parts last)).Grounded steps iterating := by
  refine ⟨parts.map Prod.snd, ?_, List.forall_mem_map.mpr fun part hpart => (hparts part hpart).2⟩
  have hwoven := Template.woven_weave (fun part hpart => ⟨(hparts part hpart).1,
    Template.clear_of_not_mem (hparts part hpart).2.braceless.2⟩) hlast
  rwa [List.map_map]

theorem Step.isRoot_result (s : Step) : Reference.IsRoot s.result := by
  unfold Step.result
  split
  · exact .stepResults s.name
  · exact .stepOutput s.name

theorem Step.stepName_result {s : Step} (h : s.PlainName) :
    Reference.stepNameOfPath s.result.path.toList = some s.name.toList := by
  rw [← List.append_nil s.result.path.toList, ← Reference.nameBefore_eq_some h.1 h.2]
  unfold Step.result
  split
  · exact Reference.stepNameOfPath_stepResults s.name []
  · exact Reference.stepNameOfPath_stepOutput s.name []

namespace Reference.LiveRoot

variable {steps steps' : List Step} {iterating : Prop} {root : Reference}

theorem isRoot (h : LiveRoot steps iterating root) : IsRoot root := by
  cases h with
  | params => exact .params
  | step hs => exact Step.isRoot_result _
  | item _ => exact .foreachItem
  | index _ => exact .foreachIndex

theorem mono {iterating' : Prop} (h : LiveRoot steps iterating root) (hsteps : steps ⊆ steps')
    (hi : iterating → iterating') : LiveRoot steps' iterating' root := by
  cases h with
  | params => exact .params
  | step hs => exact .step (hsteps hs)
  | item h => exact .item (hi h)
  | index h => exact .index (hi h)

/-- A root that tells a step is the result of this step. -/
theorem exists_of_stepNameOfPath (h : LiveRoot steps iterating root)
    (hplain : ∀ s ∈ steps, s.PlainName) {name : List Char}
    (hname : stepNameOfPath root.path.toList = some name) :
    ∃ s ∈ steps, s.name = String.ofList name := by
  cases h with
  | params | item | index => cases hname
  | @step s hs =>
    rw [Step.stepName_result (hplain s hs)] at hname
    cases hname
    exact ⟨s, hs, String.ofList_toList.symm⟩

end Reference.LiveRoot

/-! ## Texts -/

/-- The templates in the text have paths that start with live roots. -/
def ReadsFrom (steps : List Step) (iterating : Prop) (text : List Char) : Prop :=
  ∃ paths, Woven paths text ∧
    ∀ path ∈ paths, ∃ root, Reference.LiveRoot steps iterating root ∧ root.path.toList <+: path

variable {steps steps' : List Step} {iterating : Prop} {cs ds : List Char}

namespace ReadsFrom

/-- A text reads from the same steps when more are there. -/
theorem mono (h : ReadsFrom steps iterating cs) (hsteps : steps ⊆ steps') :
    ReadsFrom steps' True cs := by
  obtain ⟨paths, hwoven, hpaths⟩ := h
  refine ⟨paths, hwoven, fun path hpath => ?_⟩
  obtain ⟨root, hroot, hprefix⟩ := hpaths path hpath
  exact ⟨root, hroot.mono hsteps fun _ => trivial, hprefix⟩

theorem of_single (h : Template.Single openBrace cs) : ReadsFrom steps iterating cs :=
  ⟨[], .literal h, List.forall_mem_nil _⟩

theorem of_not_mem (h : openBrace ∉ cs) : ReadsFrom steps iterating cs :=
  of_single (Template.single_of_not_mem h)

theorem append (h : ReadsFrom steps iterating cs) (h' : ReadsFrom steps iterating ds)
    (hmeet : cs.getLast? = some openBrace → ds.head? ≠ some openBrace) :
    ReadsFrom steps iterating (cs ++ ds) := by
  obtain ⟨paths, hwoven, hpaths⟩ := h
  obtain ⟨paths', hwoven', hpaths'⟩ := h'
  refine ⟨paths ++ paths', hwoven.append hwoven' hmeet, fun path hpath => ?_⟩
  exact (List.mem_append.mp hpath).elim (hpaths path) (hpaths' path)

theorem append_of_not_mem (h : ReadsFrom steps iterating cs) (hds : openBrace ∉ ds) :
    ReadsFrom steps iterating (cs ++ ds) :=
  h.append (of_not_mem hds) fun _ hhead => hds (List.mem_of_head? hhead)

theorem append_left_of_not_mem (hcs : openBrace ∉ cs) (h : ReadsFrom steps iterating ds) :
    ReadsFrom steps iterating (cs ++ ds) :=
  (of_not_mem hcs).append h fun hlast => absurd (List.mem_of_getLast? hlast) hcs

theorem trim (h : ReadsFrom steps iterating cs) : ReadsFrom steps iterating (Text.trim cs) := by
  obtain ⟨paths, hwoven, hpaths⟩ := h
  exact ⟨paths, hwoven.trim, hpaths⟩

/-- The name that a path in the text tells is that of a step which the text reads from. -/
theorem exists_of_stepName {text : String} (h : ReadsFrom steps iterating text.toList)
    (hplain : ∀ s ∈ steps, s.PlainName) {path name : String} (hpath : path ∈ Template.paths text)
    (hname : Reference.stepName ⟨path⟩ = some name) : ∃ s ∈ steps, s.name = name := by
  obtain ⟨paths, hwoven, hpaths⟩ := h
  obtain ⟨found, hfound, rfl⟩ := List.mem_map.mp hpath
  rw [Template.pathsIn_of_woven hwoven] at hfound
  obtain ⟨written, hwritten, rfl⟩ := List.mem_map.mp (List.mem_of_mem_filter hfound)
  obtain ⟨root, hroot, rest, rfl⟩ := hpaths written hwritten
  -- Trimming leaves the root alone, and the root tells the step.
  obtain ⟨rest', htrim⟩ := Reference.trim_append hroot.isRoot.tight rest
  rw [Reference.stepName, String.toList_ofList, htrim,
    Reference.stepNameOfPath_append hroot.isRoot] at hname
  obtain ⟨cs, hcs, rfl⟩ := Option.map_eq_some_iff.mp hname
  exact hroot.exists_of_stepNameOfPath hplain hcs

end ReadsFrom

theorem Reference.Live.exists_root {r : Reference} (h : r.Live steps iterating) :
    ∃ root, LiveRoot steps iterating root ∧ root.path.toList <+: r.path.toList := by
  obtain ⟨root, hroot, hr⟩ := h
  obtain ⟨rest, hpath⟩ := hr.path_eq
  exact ⟨root, hroot, rest, hpath.symm⟩

/-- The text of a grounded leaf reads from what the leaf is grounded in. -/
theorem Leaf.Grounded.readsFrom {l : Leaf} (h : l.Grounded steps iterating) :
    ReadsFrom steps iterating l.text.toList := by
  cases l with
  | reference r =>
    refine ⟨[r.path.toList], ?_, List.forall_mem_singleton.mpr h.live.exists_root⟩
    rw [Leaf.text, Reference.template, String.toList_ofList]
    exact Template.woven_ofPath (Template.clear_of_not_mem h.braceless.2)
  | literal text =>
    obtain ⟨rs, hwoven, hrs⟩ := h
    refine ⟨_, hwoven, List.forall_mem_map.mpr fun r hr => ?_⟩
    exact (hrs r hr).live.exists_root

/-! ## Keys as JSON strings -/

/-- A JSON string has the name of the step as it is. -/
def Step.isVerbatim (s : Step) : Bool := s.name.toList.flatMap Json.escape == s.name.toList

/-- Braces are not escaped, and no escape has one. -/
theorem keeps_escape {brace : Char} (h : Json.escape brace = [brace])
    (hbrace : brace ∉ Json.escapeChars) : Template.Keeps Json.escape brace where
  self := h
  eq_of_mem a ha := by
    obtain hself | hsub := Json.escape_cases a
    · rw [hself, List.mem_singleton] at ha
      exact ha.symm
    · exact absurd (hsub ha) hbrace
  ne_nil := Json.escape_ne_nil

theorem openBrace_not_mem_quote {s : String} (h : openBrace ∉ s.toList) :
    openBrace ∉ (Json.quote s).toList := by
  have hopen : Template.Keeps Json.escape openBrace := keeps_escape rfl (by decide)
  have hquote : openBrace ≠ '"' := by decide
  rw [Json.quote, String.toList_ofList, Json.quoteChars]
  simp [hopen.not_mem_flatMap h, hquote]

theorem Step.escape_result {s : Step} (h : s.isVerbatim = true) :
    s.result.path.toList.flatMap Json.escape = s.result.path.toList := by
  have hname : s.name.toList.flatMap Json.escape = s.name.toList := by simpa [isVerbatim] using h
  unfold Step.result
  split
  · rw [Reference.stepResults, String.toList_append, String.toList_append, List.flatMap_append,
      List.flatMap_append, hname]
    rfl
  · rw [Reference.stepOutput, String.toList_append, String.toList_append, List.flatMap_append,
      List.flatMap_append, hname]
    rfl

/-- The templates in a JSON string are those of the text, with paths that are escaped as well. If
the names of the steps are not changed by this, the roots stay. -/
theorem Leaf.Grounded.readsFrom_escape {key : String}
    (h : (Leaf.literal key).Grounded (steps.filter Step.isVerbatim) iterating) :
    ReadsFrom steps iterating (key.toList.flatMap Json.escape) := by
  obtain ⟨paths, hwoven, hpaths⟩ := h.readsFrom
  have hopen : Template.Keeps Json.escape openBrace := keeps_escape rfl (by decide)
  have hclose : Template.Keeps Json.escape closeBrace := keeps_escape rfl (by decide)
  refine ⟨_, hwoven.flatMap hopen hclose, List.forall_mem_map.mpr fun path hpath => ?_⟩
  obtain ⟨root, hroot, rest, rfl⟩ := hpaths path hpath
  have hverbatim : root.path.toList.flatMap Json.escape = root.path.toList := by
    cases hroot with
    | params | item | index => rfl
    | step hs => exact Step.escape_result (List.mem_filter.mp hs).2
  refine ⟨root, hroot.mono (List.filter_subset_self ..) id, rest.flatMap Json.escape, ?_⟩
  rw [List.flatMap_append, hverbatim]

/-! ## Expressions -/

/-- Splitting a path makes no characters. -/
theorem Segment.mem_of_mem_split {path : List Char} {name : String}
    (h : .field name ∈ split path) {c : Char} (hc : c ∈ name.toList) : c ∈ path := by
  fun_induction split path with
  | case1 => cases h
  | case2 rest ih =>
    obtain hfield | hrest := List.mem_cons.mp h
    · unfold ofBracket at hfield
      split at hfield
      · cases hfield
      · cases hfield
        rw [String.toList_ofList] at hc
        have hkey := Text.mem_of_mem_trimWhere hc
        exact List.mem_cons_of_mem _ ((List.takeWhile_sublist _).subset hkey)
    · have hmem := (List.dropWhile_sublist _).subset (List.mem_of_mem_drop (ih hrest))
      exact List.mem_cons_of_mem _ hmem
  | case3 rest name' after hempty ih =>
    exact List.mem_cons_of_mem _ ((List.dropWhile_sublist _).subset (ih h))
  | case4 rest name' after hempty ih =>
    obtain hfield | hrest := List.mem_cons.mp h
    · cases hfield
      rw [String.toList_ofList] at hc
      exact List.mem_cons_of_mem _ ((List.takeWhile_sublist _).subset hc)
    · exact List.mem_cons_of_mem _ ((List.dropWhile_sublist _).subset (ih hrest))
  | case5 d rest hbracket hdot ih =>
    obtain hfield | hrest := List.mem_cons.mp h
    · cases hfield
      rw [String.toList_ofList] at hc
      exact List.cons_subset_cons d (List.takeWhile_sublist _).subset hc
    · exact List.mem_cons_of_mem _ ((List.dropWhile_sublist _).subset (ih hrest))

/-- The segments add no brace to an expression if there is none in their names. -/
theorem Reference.openBrace_not_mem_extendNullSafe {done : String} {segments : List Segment}
    (hdone : openBrace ∉ done.toList)
    (hnames : ∀ name, .field name ∈ segments → openBrace ∉ name.toList) :
    openBrace ∉ (extendNullSafe done segments).toList := by
  fun_induction extendNullSafe done segments with
  | case1 done => exact hdone
  | case2 done name rest next ih =>
    have hname := hnames name (List.mem_cons_self ..)
    refine ih ?_ fun name' hname' => hnames name' (List.mem_cons_of_mem _ hname')
    have hquote := openBrace_not_mem_quote hname
    unfold next
    split
    · exact hname
    split
    · simp only [String.toList_append, List.mem_append, not_or]
      exact ⟨⟨hdone, by decide⟩, hname⟩
    · simp only [String.toList_append, List.mem_append, not_or]
      exact ⟨⟨⟨hdone, by decide⟩, hquote⟩, by decide⟩
  | case3 done => exact hdone
  | case4 done rest hrest ih =>
    have hrest := ih (by decide) fun name hname => hnames name (List.mem_cons_of_mem _ hname)
    simp only [String.toList_append, List.mem_append, not_or]
    exact ⟨⟨⟨⟨⟨hdone, by decide⟩, by decide⟩, by decide⟩, hrest⟩, by decide⟩

/-- The expression of a reference has no brace if the path has none. -/
theorem Reference.openBrace_not_mem_nullSafe {r : Reference} (h : openBrace ∉ r.path.toList) :
    openBrace ∉ r.nullSafe.toList :=
  openBrace_not_mem_extendNullSafe List.not_mem_nil fun _ hname hc =>
    h (Segment.mem_of_mem_split hname hc)

/-! ## Code -/

namespace InlineCode

variable {inputs : List (String × Reference)}

/-- The key of the input reads from live roots when it is a JSON string, and its expression has no
brace. -/
structure Readable (steps : List Step) (iterating : Prop) (input : String × Reference) : Prop where
  key : (Leaf.literal input.1).Grounded (steps.filter Step.isVerbatim) iterating
  reference : input.2.Braceless

theorem Readable.readsFrom {input : String × Reference} (h : Readable steps iterating input) :
    ReadsFrom steps iterating (entry input).toList := by
  have hexpression : openBrace ∉ ": ".toList ++ input.2.nullSafe.toList := by
    rw [List.mem_append, not_or]
    exact ⟨by decide, Reference.openBrace_not_mem_nullSafe h.reference.1⟩
  have hkey : ReadsFrom steps iterating (['"'] ++ (input.1.toList.flatMap Json.escape ++ ['"'])) :=
    (h.key.readsFrom_escape.append_of_not_mem (by decide)).append_left_of_not_mem (by decide)
  rw [toList_entry]
  exact hkey.append_of_not_mem hexpression

theorem head?_others (inputs : List (String × Reference)) :
    (others inputs).head? ≠ some openBrace := by
  cases inputs with
  | nil => exact nofun
  | cons input inputs =>
    have hhead : (others (input :: inputs)).head? = some ',' := rfl
    rw [hhead]
    decide

theorem readsFrom_others (h : ∀ input ∈ inputs, Readable steps iterating input) :
    ReadsFrom steps iterating (others inputs) := by
  induction inputs with
  | nil => exact .of_not_mem List.not_mem_nil
  | cons input inputs ih =>
    obtain ⟨hinput, hinputs⟩ := List.forall_mem_cons.mp h
    have hseparated : ReadsFrom steps iterating (", ".toList ++ (entry input).toList) :=
      hinput.readsFrom.append_left_of_not_mem (by decide)
    exact hseparated.append (ih hinputs) fun _ => head?_others inputs

/-- The text of embedded code reads from what its keys and its function read from. -/
theorem readsFrom_wrap (h : ∀ input ∈ inputs, Readable steps iterating input) {source : String}
    (hsource : ReadsFrom steps iterating source.toList) :
    ReadsFrom steps iterating (wrap inputs source).toList := by
  have hobject : ReadsFrom steps iterating (", ".intercalate (inputs.map entry)).toList := by
    cases inputs with
    | nil => exact .of_not_mem List.not_mem_nil
    | cons input inputs =>
      obtain ⟨hinput, hinputs⟩ := List.forall_mem_cons.mp h
      rw [toList_intercalate_cons]
      exact hinput.readsFrom.append (readsFrom_others hinputs) fun _ => head?_others inputs
  have hopen : ReadsFrom steps iterating beforeObject.toList := .of_single (by decide)
  have hbefore : beforeObject.toList.getLast? ≠ some openBrace := by decide
  have hcall : ReadsFrom steps iterating
      (afterObject.toList ++ (source.toList ++ afterFunction.toList)) :=
    (hsource.append_of_not_mem (by decide)).append_left_of_not_mem (by decide)
  have hhead : (afterObject.toList ++ (source.toList ++ afterFunction.toList)).head? = some ' ' :=
    rfl
  have hbody := hobject.append hcall fun _ => by rw [hhead]; decide
  have htext := hopen.append hbody fun hlast => absurd hlast hbefore
  rw [wrap_eq]
  simpa only [String.toList_append, List.append_assoc] using htext

end InlineCode
end StepGraph
