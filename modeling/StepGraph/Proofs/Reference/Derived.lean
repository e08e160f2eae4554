import StepGraph.Proofs.Reference.Root
import StepGraph.Proofs.Template
import StepGraph.Proofs.Text

/-!
# References that are reached from a root

A chain hands out five kinds of references, and every other one is reached from them by accessors,
which only extend the path. So the path of a derived reference starts with a root, whatever the
accessors are, and the start is all that tells which step it reaches into.

* `ReachedFrom.under`: what accessors add to a path is set off by a separator.
* `Derived.tight`: the path of a derived reference is found as it is by a scan, unless it ends with
  a blank.
* `stepNameOfPath_append`: what follows a root does not change the step.
-/

namespace StepGraph
namespace Reference

/-- A reference that is handed out as it is. -/
inductive IsRoot : Reference → Prop
  | params : IsRoot .params
  | stepOutput (name : String) : IsRoot (.stepOutput name)
  | stepResults (name : String) : IsRoot (.stepResults name)
  | foreachItem : IsRoot .foreachItem
  | foreachIndex : IsRoot .foreachIndex

/-- The reference is reached from `base` by accessors. -/
def ReachedFrom (base r : Reference) : Prop := ∃ accessors, r = base.follow accessors

/-- The reference is reached from a root. -/
def Derived (r : Reference) : Prop := ∃ root, IsRoot root ∧ root.ReachedFrom r

/-- There is no brace in the path. -/
def Braceless (r : Reference) : Prop :=
  Template.openBrace ∉ r.path.toList ∧ Template.closeBrace ∉ r.path.toList

instance (r : Reference) : Decidable r.Braceless := inferInstanceAs (Decidable (_ ∧ _))

/-- The path does not end with a blank. -/
def Unpadded (r : Reference) : Prop := ∀ c ∈ r.path.toList.getLast?, Text.isBlank c = false

instance (r : Reference) : Decidable r.Unpadded := Option.decidableForallMem ..

/-! ## Accessors -/

theorem Under.refl (r : Reference) : r.Under r.path :=
  ⟨[], (List.append_nil _).symm, by simp⟩

/-- What goes on after a path goes on after the root of the path. -/
theorem Under.trans {r s : Reference} {root : String} (h : s.Under r.path) (h' : r.Under root) :
    s.Under root := by
  obtain ⟨rest, hs, hrest⟩ := h
  obtain ⟨rest', hr, hrest'⟩ := h'
  refine ⟨rest' ++ rest, by rw [hs, hr, List.append_assoc], ?_⟩
  cases rest' with
  | nil => exact hrest
  | cons c rest' => exact hrest'

theorem under_field (r : Reference) (key : String) : (r.field key).Under r.path :=
  ⟨'.' :: key.toList, by simp [field], by simp⟩

theorem under_each (r : Reference) : r.each.Under r.path :=
  ⟨"[*]".toList, by simp [each, wildcard], by simp⟩

theorem under_index (r : Reference) (key : String) : (r.index key).Under r.path := by
  unfold index
  split
  · exact r.under_each
  · exact r.under_field key

/-- An accessor extends the path, and goes on after it with a separator. -/
theorem under_access (r : Reference) (a : Accessor) : (r.access a).Under r.path := by
  cases a with
  | field key => exact r.under_field key
  | each => exact r.under_each
  | index key => exact r.under_index key
  | fieldPath dotted =>
    unfold access fieldPath
    dsimp only
    induction (dotted.toList.splitOn '.').filter (!·.isEmpty) generalizing r with
    | nil => exact .refl r
    | cons piece pieces ih => exact (ih _).trans (r.under_index (String.ofList piece))

theorem under_follow (r : Reference) (accessors : List Accessor) :
    (r.follow accessors).Under r.path := by
  induction accessors generalizing r with
  | nil => exact .refl r
  | cons a accessors ih => exact (ih (r.access a)).trans (r.under_access a)

theorem ReachedFrom.under {base r : Reference} (h : base.ReachedFrom r) : r.Under base.path := by
  obtain ⟨accessors, rfl⟩ := h
  exact base.under_follow accessors

theorem ReachedFrom.path_eq {base r : Reference} (h : base.ReachedFrom r) :
    ∃ rest, r.path.toList = base.path.toList ++ rest := by
  obtain ⟨rest, hpath, -⟩ := h.under
  exact ⟨rest, hpath⟩

/-! ## Blanks -/

open Template (Tight tight_of_ends)

/-- A root neither starts nor ends with a blank. -/
theorem IsRoot.tight {root : Reference} (h : IsRoot root) : Tight root.path.toList := by
  cases h with
  | params => exact tight_of_ends 'p' 's' rfl rfl rfl rfl
  | foreachItem => exact tight_of_ends 'f' 'm' rfl rfl rfl rfl
  | foreachIndex => exact tight_of_ends 'f' 'x' rfl rfl rfl rfl
  | stepOutput name =>
    refine tight_of_ends 's' 't' ?_ ?_ rfl rfl
    · simp [Reference.stepOutput]
    · rw [Reference.stepOutput, String.toList_append, List.getLast?_append]
      rfl
  | stepResults name =>
    refine tight_of_ends 's' 's' ?_ ?_ rfl rfl
    · simp [Reference.stepResults]
    · rw [Reference.stepResults, String.toList_append, List.getLast?_append]
      rfl

/-- A path with a beginning that has no blanks around it does not start with one. -/
theorem head?_append {path : List Char} (h : Tight path) (rest : List Char) :
    ∀ c, (path ++ rest).head? = some c → Text.isBlank c = false := by
  intro c hc
  rw [List.head?_append_of_ne_nil _ h.ne_nil] at hc
  exact h.first c hc

/-- The path of a derived reference has no blanks around it, unless it ends with one. -/
theorem Derived.tight {r : Reference} (h : r.Derived) (hlast : r.Unpadded) :
    Tight r.path.toList := by
  obtain ⟨root, hroot, hreached⟩ := h
  obtain ⟨rest, hpath⟩ := hreached.path_eq
  have htight := hroot.tight
  unfold Unpadded at hlast
  rw [hpath] at hlast ⊢
  exact ⟨by simp [htight.ne_nil], head?_append htight rest, hlast⟩

/-- Trimming leaves the beginning of a path alone that has no blanks around it. -/
theorem trim_append {path : List Char} (h : Tight path) (rest : List Char) :
    ∃ rest', Text.trim (path ++ rest) = path ++ rest' := by
  refine ⟨Text.dropRightWhile Text.isBlank rest, ?_⟩
  have hend : path.reverse.dropWhile Text.isBlank = path.reverse :=
    Text.dropWhile_eq_self (by simpa using h.last)
  unfold Text.trim Text.trimWhere
  rw [Text.dropWhile_eq_self (head?_append h rest)]
  unfold Text.dropRightWhile
  rw [List.reverse_append, List.dropWhile_append, hend]
  split
  · rename_i hblank
    rw [List.isEmpty_iff.mp hblank, List.reverse_nil, List.append_nil, List.reverse_reverse]
  · rw [List.reverse_append, List.reverse_reverse]

/-! ## Step names -/

/-- Characters up to a separator, if there are any. -/
def nameBefore (cs : List Char) : Option (List Char) :=
  let name := cs.takeWhile (!Root.isSeparator ·)
  if name.isEmpty then none else some name

/-- A name ends where a separator goes on after it. -/
theorem nameBefore_append {rest : List Char} (hrest : ∀ c ∈ rest.head?, c = '.' ∨ c = '[')
    (cs : List Char) : nameBefore (cs ++ rest) = nameBefore cs := by
  unfold nameBefore
  rw [Text.takeWhile_append_of_head? (Root.isSeparator_head? hrest)]

/-- What stands behind the dot after the name does not count. -/
theorem stepNameOfPath_steps (name rest : List Char) :
    stepNameOfPath ("steps.".toList ++ (name ++ '.' :: rest)) = nameBefore name := by
  show nameBefore (name ++ '.' :: rest) = nameBefore name
  exact nameBefore_append (by simp) name

theorem stepNameOfPath_stepOutput (name : String) (rest : List Char) :
    stepNameOfPath ((stepOutput name).path.toList ++ rest) = nameBefore name.toList := by
  rw [← stepNameOfPath_steps name.toList ("output".toList ++ rest)]
  congr 1
  simp [stepOutput]

theorem stepNameOfPath_stepResults (name : String) (rest : List Char) :
    stepNameOfPath ((stepResults name).path.toList ++ rest) = nameBefore name.toList := by
  rw [← stepNameOfPath_steps name.toList ("results".toList ++ rest)]
  congr 1
  simp [stepResults]

/-- Only the root of a path tells the step. -/
theorem stepNameOfPath_append {root : Reference} (h : IsRoot root) (rest : List Char) :
    stepNameOfPath (root.path.toList ++ rest) = stepNameOfPath root.path.toList := by
  cases h with
  | params | foreachItem | foreachIndex => rfl
  | stepOutput name =>
    rw [← List.append_nil (stepOutput name).path.toList, List.append_assoc,
      stepNameOfPath_stepOutput, stepNameOfPath_stepOutput]
  | stepResults name =>
    rw [← List.append_nil (stepResults name).path.toList, List.append_assoc,
      stepNameOfPath_stepResults, stepNameOfPath_stepResults]

/-- A name without separators is found as it is. -/
theorem nameBefore_eq_some {name : List Char} (hne : name ≠ [])
    (h : ∀ c ∈ name, Root.isSeparator c = false) : nameBefore name = some name := by
  have hall : name.takeWhile (!Root.isSeparator ·) = name :=
    List.takeWhile_eq_self_iff.mpr fun c hc => by simp [h c hc]
  unfold nameBefore
  rw [hall]
  simp [hne]

end Reference
end StepGraph
