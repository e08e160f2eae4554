import Mathlib.Data.List.DropRight
import Mathlib.Data.List.TakeWhile
import StepGraph.Text.Blank

/-!
# Runs and pieces of a text

A text is cut where a run of characters ends, or at every separator. Both are local: what stands
behind the cut does not count.

* `takeWhile_append_of_head?`: a text that goes on with a character of another kind does not change
  the run at its start.
* `trim_eq_iff`: trimming gives the one text that is left without the blanks around it (`Strips`).
* `of_mem_splitOn`: a piece between separators is part of the text and has no separator.
* `splitOn_eq_iff`: the pieces are the texts without a separator that make the text when they are
  put together again.
-/

namespace StepGraph
namespace Text

variable {p : Char → Bool} {word rest : List Char}

/-- A run at the start of a text is not longer for what follows the text, if this starts with a
character of another kind. -/
theorem takeWhile_append_of_head? (hrest : ∀ c ∈ rest.head?, p c = false) (cs : List Char) :
    (cs ++ rest).takeWhile p = cs.takeWhile p := by
  induction cs with
  | nil =>
    cases rest with
    | nil => rfl
    | cons c rest => exact List.takeWhile_cons_of_neg (by simp [hrest c rfl])
  | cons c cs ih => rw [List.cons_append, List.takeWhile_cons, List.takeWhile_cons, ih]

/-- A word ends where the text goes on with a character of another kind. -/
theorem takeWhile_append (hword : ∀ c ∈ word, p c = true) (hrest : ∀ c ∈ rest.head?, p c = false) :
    (word ++ rest).takeWhile p = word := by
  rw [takeWhile_append_of_head? hrest, List.takeWhile_eq_self_iff.mpr hword]

theorem dropWhile_append (hword : ∀ c ∈ word, p c = true) (hrest : ∀ c ∈ rest.head?, p c = false) :
    (word ++ rest).dropWhile p = rest := by
  rw [List.dropWhile_append_of_pos hword, dropWhile_eq_self hrest]

/-- Trimming takes the blanks off a text that has none of its own at its ends. -/
theorem trim_surrounded {before after cs : List Char} (hbefore : ∀ c ∈ before, isBlank c = true)
    (hafter : ∀ c ∈ after, isBlank c = true) (hne : cs ≠ [])
    (hfirst : ∀ c ∈ cs.head?, isBlank c = false) (hlast : ∀ c ∈ cs.getLast?, isBlank c = false) :
    trim (before ++ (cs ++ after)) = cs := by
  have hstart : ∀ c ∈ (cs ++ after).head?, isBlank c = false := by
    obtain ⟨c, tail, rfl⟩ := List.exists_cons_of_ne_nil hne
    exact hfirst
  have hend : ∀ c ∈ cs.reverse.head?, isBlank c = false := by rwa [List.head?_reverse]
  unfold trim trimWhere dropRightWhile
  rw [dropWhile_append hbefore hstart, List.reverse_append,
    dropWhile_append (fun c hc => hafter c (List.mem_reverse.mp hc)) hend, List.reverse_reverse]

/-- `core` is what is left of the text without the blanks around it. -/
structure Strips (cs core : List Char) : Prop where
  around : ∃ before after, (∀ c ∈ before, isBlank c = true) ∧ (∀ c ∈ after, isBlank c = true) ∧
    cs = before ++ (core ++ after)
  first : ∀ c ∈ core.head?, isBlank c = false
  last : ∀ c ∈ core.getLast?, isBlank c = false

theorem strips_trim (cs : List Char) : Strips cs (trim cs) where
  around := by
    refine ⟨cs.takeWhile isBlank, (cs.dropWhile isBlank).rtakeWhile isBlank,
      fun _ => List.mem_takeWhile_imp, fun _ => List.mem_rtakeWhile_imp, ?_⟩
    have hdrop : trim cs ++ (cs.dropWhile isBlank).rtakeWhile isBlank = cs.dropWhile isBlank :=
      List.rdropWhile_append_rtakeWhile
    rw [hdrop, List.takeWhile_append_dropWhile]
  first c hc := by
    obtain ⟨rest, hrest⟩ : trim cs <+: cs.dropWhile isBlank := List.rdropWhile_prefix ..
    have hnot := List.head?_dropWhile_not isBlank cs
    rwa [← hrest, List.head?_append, hc] at hnot
  last c hc := by
    have hnot := List.head?_dropWhile_not isBlank (cs.dropWhile isBlank).reverse
    rw [trim, trimWhere, dropRightWhile, List.getLast?_reverse] at hc
    rwa [hc] at hnot

/-- Trimming gives what is left without the blanks around a text. There is only one such text. -/
theorem trim_eq_iff {cs core : List Char} : trim cs = core ↔ Strips cs core := by
  constructor
  · rintro rfl
    exact strips_trim cs
  · rintro ⟨⟨before, after, hbefore, hafter, rfl⟩, hfirst, hlast⟩
    by_cases hne : core = []
    · subst hne
      exact trim_blank fun c hc => (List.mem_append.mp hc).elim (hbefore c) (hafter c)
    · exact trim_surrounded hbefore hafter hne hfirst hlast

/-- Trimming leaves a text that starts with a character of its own. -/
theorem head?_trim {before : List Char} {c : Char} (hbefore : ∀ d ∈ before, isBlank d = true)
    (hc : isBlank c = false) (cs : List Char) : (trim (before ++ c :: cs)).head? = some c := by
  have hstart : ∀ d ∈ (c :: cs).head?, isBlank d = false := by
    rintro _ ⟨⟩
    exact hc
  unfold trim trimWhere dropRightWhile
  rw [dropWhile_append hbefore hstart, List.head?_reverse, List.reverse_cons, List.dropWhile_append]
  split
  · rw [List.dropWhile_cons_of_neg (by simp [hc]), List.getLast?_singleton]
  · rw [List.getLast?_concat]

/-- Trimming adds no characters. -/
theorem mem_of_mem_trimWhere {c : Char} {cs : List Char} (h : c ∈ trimWhere p cs) : c ∈ cs := by
  unfold trimWhere dropRightWhile at h
  have hdrop := (List.dropWhile_sublist _).subset (List.mem_reverse.mp h)
  exact (List.dropWhile_sublist _).subset (List.mem_reverse.mp hdrop)

/-- All but the first of the joined texts come behind a separator. -/
theorem intercalate_cons (sep cs : List Char) (texts : List (List Char)) :
    sep.intercalate (cs :: texts) = cs ++ texts.flatMap (sep ++ ·) := by
  induction texts generalizing cs with
  | nil => simp
  | cons text texts ih =>
    rw [List.intercalate_cons_cons, ih, List.flatMap_cons]
    simp only [List.append_assoc]

/-- A piece between separators has characters of the text and no separator. -/
theorem of_mem_splitOn {sep c : Char} {cs piece : List Char} (h : piece ∈ cs.splitOn sep)
    (hc : c ∈ piece) : c ∈ cs ∧ c ≠ sep := by
  induction cs generalizing piece with
  | nil =>
    rw [List.splitOn_nil, List.mem_singleton] at h
    rw [h] at hc
    cases hc
  | cons d cs ih =>
    rw [List.splitOn_cons_eq_if_modifyHead] at h
    split at h
    · obtain rfl | h := List.mem_cons.mp h
      · cases hc
      · exact (ih h hc).imp_left (List.mem_cons_of_mem d)
    · rename_i hd
      obtain ⟨first, pieces, hsplit⟩ := List.exists_cons_of_ne_nil (List.splitOn_ne_nil sep cs)
      rw [hsplit] at h ih
      obtain rfl | h := List.mem_cons.mp h
      · obtain rfl | hc := List.mem_cons.mp hc
        · exact ⟨List.mem_cons_self .., by simpa using hd⟩
        · exact (ih (List.mem_cons_self ..) hc).imp_left (List.mem_cons_of_mem d)
      · exact (ih (List.mem_cons_of_mem _ h) hc).imp_left (List.mem_cons_of_mem d)

/-- The pieces between separators have no separator, and the text is made of them. -/
theorem splitOn_eq_iff {sep : Char} {cs : List Char} {pieces : List (List Char)} :
    cs.splitOn sep = pieces ↔
      pieces ≠ [] ∧ (∀ piece ∈ pieces, sep ∉ piece) ∧ [sep].intercalate pieces = cs := by
  constructor
  · rintro rfl
    exact ⟨List.splitOn_ne_nil sep cs, fun _ h hc => (of_mem_splitOn h hc).2 rfl,
      List.intercalate_splitOn sep⟩
  · rintro ⟨hne, hplain, rfl⟩
    exact List.splitOn_intercalate sep hplain hne

end Text
end StepGraph
