import StepGraph.Graph.Tree
import StepGraph.Proofs.Json.SingleLine
import StepGraph.Proofs.Text

/-!
# How many lines a leaf of the tree takes

A summary escapes the line feeds of texts and has the JSON text of everything that is no text and no
object, so most values take one line. Two ways lead past the escape: a text that starts and ends
like a template is shown as it is, and so are the keys of objects. `Breaks` says where this brings
a line feed into a summary.

* `newline_mem_summarize`: a summary has a line feed exactly where a value breaks.
* `stands_of_mem_stepLines`: the lines of the steps stand between line feeds in the tree.
* `leaf_lines_iff`: what this means for the conditions, sources and parameters in a tree.
-/

namespace StepGraph
namespace Graph

open Template (openBrace closeBrace)

/-- The summary of the value goes on over a line feed: the value is a text between double braces
with a line feed, or an object with a line feed in a key or in the summary of a member. -/
inductive Breaks : Json → Prop
  | template {s : String} (hopen : [openBrace, openBrace] <+: s.toList)
      (hclose : [closeBrace, closeBrace] <:+ s.toList) (h : '\n' ∈ s.toList) : Breaks (.string s)
  | key {members : List (String × Json)} {key : String} {j : Json} (hm : (key, j) ∈ members)
      (h : '\n' ∈ key.toList) : Breaks (.object members)
  | member {members : List (String × Json)} {key : String} {j : Json} (hm : (key, j) ∈ members)
      (h : Breaks j) : Breaks (.object members)

/-! ## Summaries -/

theorem noBreak_flatten (cs : List Char) : '\n' ∉ flatten cs := by
  intro h
  obtain ⟨c, -, hc⟩ := List.mem_flatMap.mp h
  split at hc
  · exact absurd hc (by decide)
  · rename_i hne
    exact hne (List.mem_singleton.mp hc).symm

/-- Only a text that is shown as it is keeps its line feeds. -/
theorem newline_mem_summarizeText (s : String) :
    '\n' ∈ (summarizeText s).toList ↔ looksLikeTemplate s.toList = true ∧ '\n' ∈ s.toList := by
  unfold summarizeText
  split
  · rename_i hlook
    simp [hlook]
  · rename_i hlook
    have htake : '\n' ∉ (flatten s.toList).take shownLength :=
      fun h => noBreak_flatten _ (List.mem_of_mem_take h)
    dsimp only
    split <;> simp [hlook, htake, noBreak_flatten]

theorem breaks_string_iff (s : String) :
    Breaks (.string s) ↔ looksLikeTemplate s.toList = true ∧ '\n' ∈ s.toList := by
  rw [looksLikeTemplate, Bool.and_eq_true, List.isPrefixOf_iff_prefix, List.isSuffixOf_iff_suffix]
  constructor
  · rintro ⟨hopen, hclose, h⟩
    exact ⟨⟨hopen, hclose⟩, h⟩
  · rintro ⟨⟨hopen, hclose⟩, h⟩
    exact .template hopen hclose h

theorem breaks_object_iff (members : List (String × Json)) :
    Breaks (.object members) ↔ ∃ m ∈ members, '\n' ∈ m.1.toList ∨ Breaks m.2 := by
  constructor
  · intro h
    cases h with
    | key hm h => exact ⟨_, hm, .inl h⟩
    | member hm h => exact ⟨_, hm, .inr h⟩
  · rintro ⟨m, hm, h | h⟩
    · exact .key hm h
    · exact .member hm h

/-- Joined texts have a line feed where one of them has. -/
theorem newline_mem_intercalate (texts : List String) :
    '\n' ∈ (", ".intercalate texts).toList ↔ ∃ text ∈ texts, '\n' ∈ text.toList := by
  rw [String.toList_intercalate]
  cases texts with
  | nil => simp
  | cons text texts =>
    rw [List.map_cons, Text.intercalate_cons]
    simp

mutual

/-- The summary of a value has a line feed exactly where the value breaks. -/
theorem newline_mem_summarize : (j : Json) → ('\n' ∈ (summarize j).toList ↔ Breaks j)
  | .string s => by rw [summarize, newline_mem_summarizeText, breaks_string_iff]
  | .object members => by
    have hframe : '\n' ∈ (summarize (.object members)).toList ↔
        '\n' ∈ (", ".intercalate (summarizeMembers members)).toList := by
      rw [summarize]
      simp
    rw [hframe, newline_mem_intercalate, newline_mem_summarizeMembers members, breaks_object_iff]
  | .null | .bool _ | .number _ | .array _ => by
    simp only [summarize]
    exact iff_of_false (Json.noBreak_compact _) nofun

theorem newline_mem_summarizeMembers : (members : List (String × Json)) →
    ((∃ text ∈ summarizeMembers members, '\n' ∈ text.toList) ↔
      ∃ m ∈ members, '\n' ∈ m.1.toList ∨ Breaks m.2)
  | [] => by simp [summarizeMembers]
  | (key, j) :: members => by
    have hkey : '\n' ∈ (key ++ ": " ++ summarize j).toList ↔ '\n' ∈ key.toList ∨ Breaks j := by
      rw [← newline_mem_summarize j]
      simp
    simp only [summarizeMembers, List.mem_cons, or_and_right, exists_or, exists_eq_left, hkey,
      newline_mem_summarizeMembers members]

end

/-! ## The tree -/

/-- What stands in front of a leaf of a step: the first two hang below the last step. -/
def leafMarks : List String := ["    ├── ", "    └── ", "│   ├── ", "│   └── "]

/-- The text of a leaf behind its mark. -/
def leafText (mark : String) (leaf : String × Json) : String :=
  mark ++ leaf.1 ++ ": " ++ summarize leaf.2

theorem leafText_mem_leafLines {leaf : String × Json} {leaves : List (String × Json)}
    (h : leaf ∈ leaves) (indent : String) :
    ∃ last, leafText (indent ++ branchMark last) leaf ∈ leafLines indent leaves := by
  induction leaves with
  | nil => cases h
  | cons first rest ih =>
    rw [leafLines]
    rcases List.mem_cons.mp h with rfl | h
    · exact ⟨rest.isEmpty, List.mem_cons_self ..⟩
    · obtain ⟨last, hlast⟩ := ih h
      exact ⟨last, List.mem_cons_of_mem _ hlast⟩

theorem leafLines_subset_stepLines {s : Step} {steps : List Step} (h : s ∈ steps) :
    ∃ indent ∈ ["    ", "│   "], leafLines indent s.leaves ⊆ stepLines steps := by
  induction steps with
  | nil => cases h
  | cons first rest ih =>
    rw [stepLines]
    rcases List.mem_cons.mp h with rfl | h
    · refine ⟨if rest.isEmpty then "    " else "│   ", by split <;> simp, ?_⟩
      exact List.subset_cons_of_subset _ (List.subset_append_left _ _)
    · obtain ⟨indent, hindent, hsubset⟩ := ih h
      refine ⟨indent, hindent, List.subset_cons_of_subset _ ?_⟩
      exact List.subset_append_of_subset_right _ hsubset

/-- Every leaf of a step has a line of its own in the tree. -/
theorem exists_leafText {s : Step} {steps : List Step} (hs : s ∈ steps) {leaf : String × Json}
    (h : leaf ∈ s.leaves) : ∃ mark ∈ leafMarks, leafText mark leaf ∈ stepLines steps := by
  obtain ⟨indent, hindent, hsubset⟩ := leafLines_subset_stepLines hs
  obtain ⟨last, hlast⟩ := leafText_mem_leafLines h indent
  refine ⟨indent ++ branchMark last, ?_, hsubset hlast⟩
  simp only [List.mem_cons, List.not_mem_nil, or_false] at hindent
  rcases hindent with rfl | rfl <;> cases last <;> decide

/-- The lines of the steps stand between the first and the last line of the tree. -/
theorem stands_of_mem_stepLines {g : Graph} {line : String} (h : line ∈ stepLines g.steps) :
    ∃ before after, g.tree.toList = before ++ '\n' :: (line.toList ++ '\n' :: after) := by
  obtain ⟨first, rest, hsplit⟩ := List.append_of_mem h
  -- a line follows in any case, since the last one shows the output
  obtain ⟨next, others, hnext⟩ : ∃ next others, rest ++ ["output: " ++ summarize g.output] =
      next :: others := List.exists_cons_of_ne_nil (by simp)
  refine ⟨g.heading.toList ++ (first.map String.toList).flatMap ('\n' :: ·),
    next.toList ++ (others.map String.toList).flatMap ('\n' :: ·), ?_⟩
  rw [tree, String.toList_intercalate, List.map_cons, Text.intercalate_cons, hsplit,
    List.append_assoc, List.cons_append, hnext]
  simp

/-- A summary has a line feed exactly where its value breaks. In the tree of a graph every
condition, every source and every parameter of a step stands behind a mark between two line feeds,
and takes exactly one line unless its key has a line feed or its value breaks. -/
theorem leaf_lines_iff (g : Graph) :
    (∀ j, '\n' ∈ (summarize j).toList ↔ Breaks j) ∧
    ∀ s ∈ g.steps, ∀ leaf ∈ s.leaves, ∃ mark ∈ leafMarks, ∃ before after,
      g.tree.toList = before ++ '\n' :: ((leafText mark leaf).toList ++ '\n' :: after) ∧
      ('\n' ∈ (leafText mark leaf).toList ↔ '\n' ∈ leaf.1.toList ∨ Breaks leaf.2) := by
  refine ⟨newline_mem_summarize, fun s hs leaf hleaf => ?_⟩
  obtain ⟨mark, hmark, hline⟩ := exists_leafText hs hleaf
  obtain ⟨before, after, htree⟩ := stands_of_mem_stepLines hline
  refine ⟨mark, hmark, before, after, htree, ?_⟩
  have hplain : '\n' ∉ mark.toList := by
    have hall : ∀ mark ∈ leafMarks, '\n' ∉ mark.toList := by decide
    exact hall mark hmark
  rw [← newline_mem_summarize]
  simp [leafText, hplain]

/-- A prompt that starts and ends with a template. -/
def brokenPrompt : String :=
  "\x7b\x7bsteps.search.output.results\x7d\x7d\n\nAnswer: \x7b\x7bparams.question\x7d\x7d"

/-- A step with this prompt, under a condition and for each item of a list. -/
def brokenStep : Step where
  name := "prompt_completion"
  transformation := "prompt_completion"
  params := [("prompt", .string brokenPrompt)]
  condition := some (.bool true)
  source := some (.array [.string "a\nb"])

/-- The step as it stands in a graph. -/
def brokenGraph : Graph where
  studioId := "s"
  title := ""
  description := ""
  parameters := []
  steps := [brokenStep]
  output := .null
  publiclyTriggerable := false
  isPublic := false

theorem leaf_lines_brokenGraph : brokenStep ∈ brokenGraph.steps ∧
    ("foreach", .array [.string "a\nb"]) ∈ brokenStep.leaves ∧
    ("prompt", .string brokenPrompt) ∈ brokenStep.leaves ∧
    (∃ mark ∈ leafMarks, '\n' ∉ (leafText mark ("foreach", .array [.string "a\nb"])).toList) ∧
    ∃ mark ∈ leafMarks, '\n' ∈ (leafText mark ("prompt", .string brokenPrompt)).toList := by
  have hstep : brokenStep ∈ brokenGraph.steps := List.mem_singleton.mpr rfl
  have hsource : ("foreach", .array [.string "a\nb"]) ∈ brokenStep.leaves := by
    simp [Step.leaves, brokenStep]
  have hprompt : ("prompt", .string brokenPrompt) ∈ brokenStep.leaves := by
    simp [Step.leaves, brokenStep]
  refine ⟨hstep, hsource, hprompt, ?_, ?_⟩
  · obtain ⟨mark, hmark, _, _, _, hiff⟩ :=
      (leaf_lines_iff brokenGraph).2 brokenStep hstep _ hsource
    exact ⟨mark, hmark, fun h => (hiff.mp h).elim (by decide) nofun⟩
  · obtain ⟨mark, hmark, _, _, _, hiff⟩ :=
      (leaf_lines_iff brokenGraph).2 brokenStep hstep _ hprompt
    exact ⟨mark, hmark, hiff.mpr (.inr (.template (by decide) (by decide) (by decide)))⟩

/-- The prompt is shown with its line feeds. -/
theorem newline_mem_summarize_brokenPrompt :
    '\n' ∈ (summarize (.string brokenPrompt)).toList := by
  decide

end Graph
end StepGraph
