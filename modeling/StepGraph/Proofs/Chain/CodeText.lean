import StepGraph.Proofs.Chain.EmbeddedCode
import StepGraph.Proofs.Reference.NullSafe

/-!
# The text of embedded code is read back

The text of embedded code has three kinds of foreign text in it: keys, names in expressions and the
function. A key is quoted and an expression ends where a comma or a blank follows, so the object
ends where it was closed, whatever the keys and the names are. The function stands behind it, and
what follows every function is the same.

* `entries_append_inj`: the entries of the object are determined by any text that they stand in.
* `wrap_eq_iff`: the text determines the function and the entries, in order.
* `embedCode_text_eq_iff`: so do the texts of steps that embedded code has added.
-/

namespace StepGraph
namespace InlineCode

open Reference (Derived)
open Segment (Ends)

variable {inputs inputs' : List (String × Reference)} {input input' : String × Reference}
  {u v : List Char}

/-- What the code has of an input: its key and the expression of its reference. -/
def shown (input : String × Reference) : String × String := (input.1, input.2.nullSafe)

/-- An entry has nothing else of its input. -/
theorem map_entry (inputs : List (String × Reference)) :
    inputs.map entry =
      (inputs.map shown).map fun input => Json.quote input.1 ++ ": " ++ input.2 := by
  rw [List.map_map]
  rfl

theorem toList_entry (input : String × Reference) :
    (entry input).toList =
      Json.quoteChars input.1.toList ++ (": ".toList ++ input.2.nullSafe.toList) := by
  rw [entry, String.toList_append, String.toList_append, Json.quote, String.toList_ofList,
    List.append_assoc]

/-- An entry that stands before an end is determined by the text. -/
theorem entry_append_inj (h : input.2.Derived) (h' : input'.2.Derived) (hu : Ends u) (hv : Ends v)
    (heq : (entry input).toList ++ u = (entry input').toList ++ v) :
    shown input = shown input' ∧ u = v := by
  rw [toList_entry, toList_entry] at heq
  simp only [List.append_assoc] at heq
  obtain ⟨hkey, hrest⟩ := Json.quoteChars_append_inj heq
  obtain ⟨-, hexpression, huv⟩ :=
    Reference.nullSafe_append_inj h h' hu hv (List.append_cancel_left hrest)
  exact ⟨Prod.ext (String.toList_inj.mp hkey) hexpression, huv⟩

/-! ## The object -/

/-- The entries behind the first one. -/
def others (inputs : List (String × Reference)) : List Char :=
  inputs.flatMap fun input => ", ".toList ++ (entry input).toList

theorem toList_intercalate_cons (input : String × Reference) (inputs : List (String × Reference)) :
    (", ".intercalate ((input :: inputs).map entry)).toList =
      (entry input).toList ++ others inputs := by
  rw [String.toList_intercalate, List.map_cons, List.map_cons, Text.intercalate_cons, List.map_map,
    List.flatMap_map]
  rfl

/-- What closes the object. -/
def Closes (u : List Char) : Prop := ∃ rest, u = ' ' :: rest

theorem ends_others (inputs : List (String × Reference)) (hu : Closes u) :
    Ends (others inputs ++ u) := by
  obtain ⟨rest, rfl⟩ := hu
  cases inputs with
  | nil =>
    intro c hc
    cases hc
    decide
  | cons input inputs =>
    intro c hc
    cases hc
    decide

theorem others_append_inj (h : ∀ input ∈ inputs, input.2.Derived)
    (h' : ∀ input ∈ inputs', input.2.Derived) (hu : Closes u) (hv : Closes v)
    (heq : others inputs ++ u = others inputs' ++ v) :
    inputs.map shown = inputs'.map shown ∧ u = v := by
  induction inputs generalizing inputs' with
  | nil =>
    cases inputs' with
    | nil => exact ⟨rfl, heq⟩
    | cons input' inputs' =>
      obtain ⟨rest, rfl⟩ := hu
      cases heq
  | cons input inputs ih =>
    cases inputs' with
    | nil =>
      obtain ⟨rest, rfl⟩ := hv
      cases heq
    | cons input' inputs' =>
      obtain ⟨hinput, hinputs⟩ := List.forall_mem_cons.mp h
      obtain ⟨hinput', hinputs'⟩ := List.forall_mem_cons.mp h'
      unfold others at heq
      rw [List.flatMap_cons, List.flatMap_cons] at heq
      simp only [List.append_assoc] at heq
      obtain ⟨hshown, hrest⟩ := entry_append_inj hinput hinput' (ends_others inputs hu)
        (ends_others inputs' hv) (List.append_cancel_left heq)
      obtain ⟨hmore, huv⟩ := ih hinputs hinputs' hrest
      rw [List.map_cons, List.map_cons, hshown, hmore]
      exact ⟨rfl, huv⟩

/-- The entries of the object are determined by any text that they stand in. -/
theorem entries_append_inj (h : ∀ input ∈ inputs, input.2.Derived)
    (h' : ∀ input ∈ inputs', input.2.Derived) (hu : Closes u) (hv : Closes v)
    (heq : (", ".intercalate (inputs.map entry)).toList ++ u =
      (", ".intercalate (inputs'.map entry)).toList ++ v) :
    inputs.map shown = inputs'.map shown ∧ u = v := by
  cases inputs with
  | nil =>
    cases inputs' with
    | nil => exact ⟨rfl, heq⟩
    | cons input' inputs' =>
      rw [toList_intercalate_cons, toList_entry] at heq
      obtain ⟨rest, rfl⟩ := hu
      cases heq
  | cons input inputs =>
    cases inputs' with
    | nil =>
      rw [toList_intercalate_cons, toList_entry] at heq
      obtain ⟨rest, rfl⟩ := hv
      cases heq
    | cons input' inputs' =>
      obtain ⟨hinput, hinputs⟩ := List.forall_mem_cons.mp h
      obtain ⟨hinput', hinputs'⟩ := List.forall_mem_cons.mp h'
      rw [toList_intercalate_cons, toList_intercalate_cons, List.append_assoc,
        List.append_assoc] at heq
      obtain ⟨hshown, hrest⟩ := entry_append_inj hinput hinput' (ends_others inputs hu)
        (ends_others inputs' hv) heq
      obtain ⟨hmore, huv⟩ := others_append_inj hinputs hinputs' hu hv hrest
      rw [List.map_cons, List.map_cons, hshown, hmore]
      exact ⟨rfl, huv⟩

/-! ## The code -/

/-- What opens the object. -/
def beforeObject : String := "return (() => \x7b\n  const _$$params = \x7b "

/-- What closes the object and opens the function. -/
def afterObject : String := " \x7d;\n  return ("

/-- What calls the function. -/
def afterFunction : String := ")(_$$params);\n\x7d)();"

theorem wrap_eq (inputs : List (String × Reference)) (source : String) :
    wrap inputs source = beforeObject ++ ", ".intercalate (inputs.map entry) ++ afterObject ++
      source ++ afterFunction := rfl

/-- The text determines the function and the entries of the object, in order. -/
theorem wrap_eq_iff (h : ∀ input ∈ inputs, input.2.Derived)
    (h' : ∀ input ∈ inputs', input.2.Derived) {source source' : String} :
    wrap inputs source = wrap inputs' source' ↔
      source = source' ∧ inputs.map shown = inputs'.map shown := by
  rw [wrap_eq, wrap_eq]
  constructor
  · intro heq
    have htext := congrArg String.toList heq
    simp only [String.toList_append, List.append_assoc] at htext
    have hcloses (rest : List Char) : Closes (afterObject.toList ++ rest) := ⟨_, rfl⟩
    obtain ⟨hshown, hrest⟩ :=
      entries_append_inj h h' (hcloses _) (hcloses _) (List.append_cancel_left htext)
    have hsource := List.append_cancel_right (List.append_cancel_left hrest)
    exact ⟨String.toList_inj.mp hsource, hshown⟩
  · rintro ⟨rfl, hshown⟩
    rw [map_entry, hshown, ← map_entry]

end InlineCode

namespace Chain

open InlineCode (shown)

variable {c d c' d' : Chain} {r r' : Reference} {inputs inputs' : List (String × Reference)}
  {source source' : String}

/-! ## Embedding -/

/-- `d` has one more step than `c`, with `text` as its code. -/
def AddsCode (c d : Chain) (text : String) : Prop :=
  ∃ s, d.steps = c.steps ++ [s] ∧ s.params = [("code", .string text)]

theorem addsCode_of_embedCode (h : c.embedCode inputs source = (.ok r, d)) :
    c.AddsCode d (InlineCode.wrap inputs (String.ofList (Text.trim source.toList))) := by
  by_cases hcode : Text.trim source.toList = []
  · unfold embedCode at h
    dsimp only at h
    rw [hcode] at h
    cases h
  · rw [embedCode_eq c inputs hcode] at h
    unfold addStep pushStep at h
    dsimp only at h
    split at h
    · cases h
    · cases h
      exact ⟨_, rfl, rfl⟩

/-- Embedded code is stored as a text, and two of these texts are equal if and only if the functions
are, apart from blanks around them, and the keys and expressions of the inputs are, in order. So no
key and no name in an expression is taken for another part of the text. -/
theorem embedCode_text_eq_iff (hinputs : ∀ input ∈ inputs, input.2.Derived)
    (hinputs' : ∀ input ∈ inputs', input.2.Derived)
    (h : c.embedCode inputs source = (.ok r, d))
    (h' : c'.embedCode inputs' source' = (.ok r', d')) :
    ∃ text text', c.AddsCode d text ∧ c'.AddsCode d' text' ∧
      (text = text' ↔
        Text.trim source.toList = Text.trim source'.toList ∧
          inputs.map shown = inputs'.map shown) := by
  refine ⟨_, _, addsCode_of_embedCode h, addsCode_of_embedCode h', ?_⟩
  rw [InlineCode.wrap_eq_iff hinputs hinputs', String.ofList_inj]

/-- Two inputs. -/
def twoInputs : List (String × Reference) := [("a", .params), ("b", .field .params "x")]

/-- One input with a key that looks like an entry and the key of the next one. -/
def oneInput : List (String × Reference) := [("a\": params, \"b", .field .params "x")]

/-- The text of two inputs is not that of one input with the first of them in its key. -/
theorem embedCode_text_eq_iff_twoInputs :
    (∀ input ∈ twoInputs, input.2.Derived) ∧ (∀ input ∈ oneInput, input.2.Derived) ∧
      ∃ r d r' d', ({} : Chain).embedCode twoInputs "(p) => p" = (.ok r, d) ∧
        ({} : Chain).embedCode oneInput " (p) => p\n" = (.ok r', d') ∧
        ∃ text text', ({} : Chain).AddsCode d text ∧ ({} : Chain).AddsCode d' text' ∧
          text ≠ text' := by
  have hparams : Reference.params.Derived := ⟨_, .params, [], rfl⟩
  have hfield : (Reference.params.field "x").Derived := ⟨_, .params, [.field "x"], rfl⟩
  have htwo : ∀ input ∈ twoInputs, input.2.Derived :=
    List.forall_mem_cons.mpr ⟨hparams, List.forall_mem_singleton.mpr hfield⟩
  have hone : ∀ input ∈ oneInput, input.2.Derived := List.forall_mem_singleton.mpr hfield
  have hok (inputs : List (String × Reference)) :
      ∃ r d, ({} : Chain).embedCode inputs "(p) => p" = (.ok r, d) := ⟨_, _, rfl⟩
  have hblank (inputs : List (String × Reference)) :
      ∃ r d, ({} : Chain).embedCode inputs " (p) => p\n" = (.ok r, d) := ⟨_, _, rfl⟩
  obtain ⟨r, d, h⟩ := hok twoInputs
  obtain ⟨r', d', h'⟩ := hblank oneInput
  obtain ⟨text, text', hadds, hadds', hiff⟩ := embedCode_text_eq_iff htwo hone h h'
  refine ⟨htwo, hone, r, d, r', d', h, h', text, text', hadds, hadds', mt hiff.mp ?_⟩
  rintro ⟨-, hshown⟩
  cases congrArg List.length hshown

end Chain
end StepGraph
