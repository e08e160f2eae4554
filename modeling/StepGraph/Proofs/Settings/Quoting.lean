import Mathlib.Data.List.Infix
import StepGraph.Proofs.Text
import StepGraph.Settings

/-!
# Quoted values in files of variables

Between quotes any text stands for itself. The quote at the end of a value keeps its blanks from
being trimmed, the first `=` of a line is the one behind the key, and quotes inside of a value are
no ends, because only the outermost pair is taken away.

* `Assigns line pair`: the line assigns a quoted value, with blanks and the word `export` in front
  of the key. `Idle line`: the line assigns nothing.
* `Writes lines pairs`: the lines write the pairs in order, each on a line of its own.
* `assignments_of_writes`: such lines are read as these pairs, whatever the values are.
-/

namespace StepGraph
namespace EnvFile

/-- Blanks inside of a line. -/
def Padding (cs : List Char) : Prop := ∀ c ∈ cs, Text.isBlank c = true ∧ c ≠ '\n'

/-- A key that a line can assign to. -/
structure IsKey (key : List Char) : Prop where
  ne_nil : key ≠ []
  plain : ∀ c ∈ key, c ≠ '=' ∧ c ≠ '\n'
  first : ∀ c ∈ key.head?, Text.isBlank c = false
  last : ∀ c ∈ key.getLast?, Text.isBlank c = false
  no_comment : key.head? ≠ some '#'
  no_export : ¬exportMark <+: key

instance (cs : List Char) : Decidable (Padding cs) := List.decidableBAll _ _

instance (key : List Char) : Decidable (IsKey key) :=
  haveI : Decidable (∀ c ∈ key, c ≠ '=' ∧ c ≠ '\n') := List.decidableBAll _ _
  haveI : Decidable (∀ c ∈ key.head?, Text.isBlank c = false) := Option.decidableForallMem _
  haveI : Decidable (∀ c ∈ key.getLast?, Text.isBlank c = false) := Option.decidableForallMem _
  decidable_of_iff
    (key ≠ [] ∧ (∀ c ∈ key, c ≠ '=' ∧ c ≠ '\n') ∧ (∀ c ∈ key.head?, Text.isBlank c = false) ∧
      (∀ c ∈ key.getLast?, Text.isBlank c = false) ∧ key.head? ≠ some '#' ∧ ¬exportMark <+: key)
    ⟨fun ⟨hne, hplain, hfirst, hlast, hcomment, hexport⟩ =>
      ⟨hne, hplain, hfirst, hlast, hcomment, hexport⟩,
    fun ⟨hne, hplain, hfirst, hlast, hcomment, hexport⟩ =>
      ⟨hne, hplain, hfirst, hlast, hcomment, hexport⟩⟩

/-- What may stand in front of a key: blanks, and the word `export` between them. -/
inductive Lead : List Char → Prop
  | plain {indent : List Char} (hindent : Padding indent) : Lead indent
  | exported {indent gap : List Char} (hindent : Padding indent) (hgap : Padding gap) :
      Lead (indent ++ (exportMark ++ gap))

/-- A value between quotes. -/
def quoted (quote : Char) (value : List Char) : List Char := quote :: (value ++ [quote])

/-- The assignment of a quoted value, without anything around it. -/
def bare (key : List Char) (quote : Char) (value : List Char) : List Char :=
  key ++ '=' :: quoted quote value

/-- The line assigns the value, between quotes of either kind, to the key. It may end with blanks,
such as the first half of a line end of two characters. -/
inductive Assigns : List Char → String × String → Prop
  | mk {lead trail : List Char} {quote : Char} {key value : String} (hlead : Lead lead)
      (hkey : IsKey key.toList) (hquote : quote = '"' ∨ quote = '\'')
      (hvalue : '\n' ∉ value.toList) (htrail : Padding trail) :
      Assigns (lead ++ (bare key.toList quote value.toList ++ trail)) (key, value)

/-- The line assigns nothing: it is a comment, or it has no `=`, like a line of blanks. -/
inductive Idle : List Char → Prop
  | comment {indent text : List Char} (hindent : Padding indent) (htext : '\n' ∉ text) :
      Idle (indent ++ '#' :: text)
  | unassigned {line : List Char} (hline : '\n' ∉ line) (hassign : '=' ∉ line) : Idle line

/-- The lines assign the pairs, in their order, and nothing else. -/
inductive Writes : List (List Char) → List (String × String) → Prop
  | nil : Writes [] []
  | idle {line : List Char} {lines : List (List Char)} {pairs : List (String × String)}
      (head : Idle line) (tail : Writes lines pairs) : Writes (line :: lines) pairs
  | assigns {line : List Char} {lines : List (List Char)} {pair : String × String}
      {pairs : List (String × String)} (head : Assigns line pair) (tail : Writes lines pairs) :
      Writes (line :: lines) (pair :: pairs)

variable {line : List Char} {pair : String × String}

/-! ## Lines have no line feed -/

theorem Padding.blank {cs : List Char} (h : Padding cs) : ∀ c ∈ cs, Text.isBlank c = true :=
  fun c hc => (h c hc).1

theorem Padding.noBreak {cs : List Char} (h : Padding cs) : '\n' ∉ cs :=
  fun hc => (h _ hc).2 rfl

theorem Lead.noBreak {lead : List Char} (h : Lead lead) : '\n' ∉ lead := by
  cases h with
  | plain hindent => exact hindent.noBreak
  | exported hindent hgap =>
    have hmark : '\n' ∉ exportMark := by decide
    simp [hindent.noBreak, hgap.noBreak, hmark]

theorem quoted_noBreak {quote : Char} (hquote : quote = '"' ∨ quote = '\'') {value : List Char}
    (h : '\n' ∉ value) : '\n' ∉ quoted quote value := by
  rcases hquote with rfl | rfl <;> simp [quoted, h]

theorem Assigns.noBreak (h : Assigns line pair) : '\n' ∉ line := by
  obtain ⟨hlead, hkey, hquote, hvalue, htrail⟩ := h
  have hplain : '\n' ∉ _ := fun hc => (hkey.plain _ hc).2 rfl
  simp [bare, hlead.noBreak, hplain, quoted_noBreak hquote hvalue, htrail.noBreak]

theorem Idle.noBreak (h : Idle line) : '\n' ∉ line := by
  cases h with
  | comment hindent htext => simp [hindent.noBreak, htext]
  | unassigned hline => exact hline

/-! ## What a line assigns -/

theorem splitAssignment_of_not_mem (h : '=' ∉ line) : splitAssignment line = none := by
  have hall : line.dropWhile (· != '=') = [] :=
    List.dropWhile_eq_nil_iff.mpr fun c hc => bne_iff_ne.mpr fun he => h (he ▸ hc)
  rw [splitAssignment, hall]

/-- A text without `=` ends at the first one behind it. -/
theorem splitAssignment_append {key : List Char} (h : ∀ c ∈ key, c ≠ '=') (value : List Char) :
    splitAssignment (key ++ '=' :: value) = some (key, value) := by
  have hkey : ∀ c ∈ key, (c != '=') = true := fun c hc => bne_iff_ne.mpr (h c hc)
  have hend : ∀ c ∈ ('=' :: value).head?, (c != '=') = false := by simp
  rw [splitAssignment, Text.dropWhile_append hkey hend, Text.takeWhile_append hkey hend]

theorem withoutExport_append (cs : List Char) : withoutExport (exportMark ++ cs) = cs := by
  rw [withoutExport, List.isPrefixOf?_eq_some_iff_append_eq.mpr rfl, Option.getD_some]

theorem mem_of_mem_withoutExport {c : Char} {cs : List Char} (h : c ∈ withoutExport cs) :
    c ∈ cs := by
  unfold withoutExport at h
  cases hmark : exportMark.isPrefixOf? cs with
  | none => rwa [hmark] at h
  | some rest =>
    rw [hmark] at h
    rw [← List.isPrefixOf?_eq_some_iff_append_eq.mp hmark]
    exact List.mem_append_right _ h

/-- Nothing is taken off a key that does not start with the mark: the mark has no `=`, so it does
not reach behind the key either. -/
theorem withoutExport_of_isKey {key : List Char} (h : IsKey key) (value : List Char) :
    withoutExport (key ++ '=' :: value) = key ++ '=' :: value := by
  have hno : ¬exportMark <+: key ++ '=' :: value := by
    intro hmark
    by_cases hlength : exportMark.length ≤ key.length
    · exact h.no_export (List.prefix_of_prefix_length_le hmark (List.prefix_append _ _) hlength)
    · have hlonger : key ++ ['='] <+: key ++ '=' :: value := by simp
      have hequals : key ++ ['='] <+: exportMark :=
        List.prefix_of_prefix_length_le hlonger hmark (by simp; omega)
      exact absurd (hequals.subset (by simp : '=' ∈ key ++ ['='])) (by decide)
  have hnone : exportMark.isPrefixOf? (key ++ '=' :: value) = none := by
    cases hmark : exportMark.isPrefixOf? (key ++ '=' :: value) with
    | none => rfl
    | some rest => exact absurd ⟨rest, List.isPrefixOf?_eq_some_iff_append_eq.mp hmark⟩ hno
  rw [withoutExport, hnone, Option.getD_none]

/-- Quotes are no blanks, so a value between them is not trimmed. -/
theorem trim_quoted {quote : Char} (hquote : quote = '"' ∨ quote = '\'') (value : List Char) :
    Text.trim (quoted quote value) = quoted quote value := by
  have hblank : Text.isBlank quote = false := by rcases hquote with rfl | rfl <;> decide
  apply Text.trim_eq_self <;> simp [quoted, List.getLast?_cons, hblank]

theorem IsKey.trim {key : List Char} (h : IsKey key) {gap : List Char} (hgap : Padding gap) :
    Text.trim (gap ++ key) = key := by
  have htrim : Text.trim (gap ++ (key ++ [])) = key :=
    Text.trim_surrounded hgap.blank nofun h.ne_nil h.first h.last
  rwa [List.append_nil] at htrim

/-- What is left of a line without the blanks around it and the mark in front is cut at its first
`=`, and the value loses its quotes. -/
theorem assignment_of_withoutExport {indent trail key value : List Char} {quote : Char}
    (front gap : List Char) (hindent : Padding indent) (htrail : Padding trail)
    (hgap : Padding gap) (hkey : IsKey key) (hquote : quote = '"' ∨ quote = '\'')
    (hfirst : ∀ c ∈ (front ++ bare key quote value).head?, Text.isBlank c = false ∧ c ≠ '#')
    (hmark : withoutExport (front ++ bare key quote value) = gap ++ bare key quote value) :
    assignment (indent ++ (front ++ bare key quote value ++ trail)) = some (key, value) := by
  have hne : front ++ bare key quote value ≠ [] := by simp [bare]
  have hlast : ∀ c ∈ (front ++ bare key quote value).getLast?, Text.isBlank c = false := by
    rcases hquote with rfl | rfl <;>
      simp [bare, quoted, List.getLast?_append, List.getLast?_cons] <;> decide
  have htrim : Text.trim (indent ++ (front ++ bare key quote value ++ trail)) =
      front ++ bare key quote value :=
    Text.trim_surrounded hindent.blank htrail.blank hne (fun c hc => (hfirst c hc).1) hlast
  have hcomment : (front ++ bare key quote value).head? ≠ some '#' :=
    fun hc => (hfirst '#' hc).2 rfl
  have hplain : ∀ c ∈ gap ++ key, c ≠ '=' := by
    intro c hc
    rcases List.mem_append.mp hc with hc | hc
    · rintro rfl
      exact absurd (hgap.blank _ hc) (by decide)
    · exact (hkey.plain c hc).1
  have hsplit : splitAssignment (gap ++ bare key quote value) =
      some (gap ++ key, quoted quote value) := by
    rw [bare, ← List.append_assoc, splitAssignment_append hplain]
  rw [assignment]
  dsimp only
  rw [htrim, if_neg hcomment, hmark, hsplit]
  dsimp only
  rw [hkey.trim hgap, trim_quoted hquote, quoted, unquote_quoted hquote,
    if_neg (by simp [hkey.ne_nil])]

/-- A line that assigns a quoted value is read as its key and this value. -/
theorem assignment_of_assigns (h : Assigns line pair) :
    assignment line = some (pair.1.toList, pair.2.toList) := by
  obtain @⟨lead, trail, quote, key, value, hlead, hkey, hquote, -, htrail⟩ := h
  cases hlead with
  | plain hindent =>
    refine assignment_of_withoutExport [] [] hindent htrail nofun hkey hquote ?_
      (withoutExport_of_isKey hkey _)
    obtain ⟨first, tail, hcons⟩ := List.exists_cons_of_ne_nil hkey.ne_nil
    intro c hc
    rw [List.nil_append, bare, hcons] at hc
    cases hc
    refine ⟨hkey.first first (by rw [hcons]; rfl), ?_⟩
    rintro rfl
    exact hkey.no_comment (by rw [hcons]; rfl)
  | @exported indent gap hindent hgap =>
    have hassoc : indent ++ (exportMark ++ gap) ++ (bare key.toList quote value.toList ++ trail) =
        indent ++ (exportMark ++ gap ++ bare key.toList quote value.toList ++ trail) := by
      simp only [List.append_assoc]
    rw [hassoc]
    refine assignment_of_withoutExport (exportMark ++ gap) gap hindent htrail hgap hkey hquote ?_ ?_
    · rintro c ⟨⟩
      decide
    · rw [List.append_assoc, withoutExport_append]

/-- A line that assigns nothing is passed over. -/
theorem assignment_of_idle (h : Idle line) : assignment line = none := by
  rw [assignment]
  cases h with
  | @comment indent text hindent htext =>
    exact if_pos (Text.head?_trim hindent.blank (by decide) text)
  | unassigned hline hassign =>
    have hequals : '=' ∉ withoutExport (Text.trim line) :=
      fun h => hassign (Text.mem_of_mem_trimWhere (mem_of_mem_withoutExport h))
    dsimp only
    split
    · rfl
    · rw [splitAssignment_of_not_mem hequals]

/-! ## Whole files -/

theorem noBreak_of_writes {lines : List (List Char)} {pairs : List (String × String)}
    (h : Writes lines pairs) : ∀ line ∈ lines, '\n' ∉ line := by
  induction h with
  | nil => exact List.forall_mem_nil _
  | idle head tail ih => exact List.forall_mem_cons.mpr ⟨head.noBreak, ih⟩
  | assigns head tail ih => exact List.forall_mem_cons.mpr ⟨head.noBreak, ih⟩

theorem filterMap_assignment {lines : List (List Char)} {pairs : List (String × String)}
    (h : Writes lines pairs) :
    lines.filterMap assignment = pairs.map fun pair => (pair.1.toList, pair.2.toList) := by
  induction h with
  | nil => rfl
  | idle head tail ih => rw [List.filterMap_cons_none (assignment_of_idle head), ih]
  | assigns head tail ih =>
    rw [List.filterMap_cons_some (assignment_of_assigns head), ih, List.map_cons]

/-- Pairs that are written with their values between quotes, each on a line of its own, are read
in their order and unchanged, whatever the values hold and whatever lines that assign nothing stand
between them. -/
theorem assignments_of_writes {lines : List (List Char)} {pairs : List (String × String)}
    (h : Writes lines pairs) :
    assignments (String.ofList (['\n'].intercalate lines)) = pairs := by
  have hread : ((['\n'].intercalate lines).splitOn '\n').filterMap assignment =
      pairs.map fun pair => (pair.1.toList, pair.2.toList) := by
    by_cases hlines : lines = []
    · subst hlines
      cases h
      rfl
    · rw [List.splitOn_intercalate '\n' (noBreak_of_writes h) hlines, filterMap_assignment h]
  rw [assignments, String.toList_ofList, hread, List.map_map]
  simp [Function.comp_def, String.ofList_toList]

/-- A comment with an assignment, an exported key behind a tab in a line that ends with a carriage
return, a line without `=`, and a key in quotes. -/
def sampleLines : List (List Char) := [
  "# k='v'".toList, " export \tA='x = \"1\"' # ''\r".toList, "B".toList, [], "\"b\"=\"\"".toList]

/-- What these lines assign. -/
def samplePairs : List (String × String) := [("A", "x = \"1\"' # '"), ("\"b\"", "")]

theorem assignments_of_writes_sampled : Writes sampleLines samplePairs ∧
    assignments (String.ofList (['\n'].intercalate sampleLines)) = samplePairs := by
  have hfirst : Assigns " export \tA='x = \"1\"' # ''\r".toList ("A", "x = \"1\"' # '") :=
    @Assigns.mk (" ".toList ++ (exportMark ++ "\t".toList)) ['\r'] '\'' "A" "x = \"1\"' # '"
      (.exported (by decide) (by decide)) (by decide) (.inr rfl) (by decide) (by decide)
  have hsecond : Assigns "\"b\"=\"\"".toList ("\"b\"", "") :=
    @Assigns.mk [] [] '"' "\"b\"" "" (.plain (by decide)) (by decide) (.inl rfl) (by decide)
      (by decide)
  have hwrites : Writes sampleLines samplePairs :=
    .idle (@Idle.comment [] " k='v'".toList (by decide) (by decide)) <|
    .assigns hfirst <|
    .idle (.unassigned (by decide) (by decide)) <|
    .idle (.unassigned (by decide) (by decide)) <|
    .assigns hsecond .nil
  exact ⟨hwrites, assignments_of_writes hwrites⟩

end EnvFile
end StepGraph
