import StepGraph.Proofs.Reference.Root
import StepGraph.Proofs.Text
import StepGraph.Reference.Segment

/-!
# The segments of a path are its accessors

Accessors write fields and projections one after the other, and nothing but the separators between
them tells where one ends. Splitting the path gives them back, as long as no name and no key has a
separator of its own.

* `path_follow`: accessors add the texts of their segments to the path, and nothing else.
* `split_append_texts`: a path that starts with a word is split into this word and the segments
  whose texts follow it.
* `segments_of_follow`: a path is split into the fields of its root and the segments of its
  accessors, so no other root and no other segments give it.
-/

namespace StepGraph

namespace Segment

/-! ## Texts of segments -/

/-- A name that can be told from what follows it in a path. -/
def IsWord (name : List Char) : Prop := name ≠ [] ∧ ∀ c ∈ name, Root.isSeparator c = false

instance (name : List Char) : Decidable (IsWord name) :=
  have := List.decidableBAll (fun c => Root.isSeparator c = false) name
  inferInstanceAs (Decidable (_ ∧ _))

/-- The segment that a key stands for. -/
def ofKey (key : String) : Segment := if key = Reference.wildcard then each else field key

/-- What an accessor writes for the segment. -/
def text : Segment → List Char
  | field name => '.' :: name.toList
  | each => "[*]".toList

/-- The name of a field is a word. -/
def Plain : Segment → Prop
  | field name => IsWord name.toList
  | each => True

variable {name rest : List Char} {segments : List Segment}

theorem plain_ofKey {key : String} (h : IsWord key.toList) : (ofKey key).Plain := by
  unfold ofKey
  split
  · trivial
  · exact h

/-- What stands behind a segment starts with a separator. -/
theorem head?_texts (segments : List Segment) :
    ∀ c ∈ (segments.flatMap text).head?, c = '.' ∨ c = '[' := by
  intro c hc
  cases segments with
  | nil => cases hc
  | cons s segments =>
    cases s with
    | field name =>
      cases hc
      exact .inl rfl
    | each =>
      cases hc
      exact .inr rfl

/-! ## Splitting -/

theorem not_isSeparator_of_mem (h : IsWord name) : ∀ c ∈ name, (!Root.isSeparator c) = true := by
  intro c hc
  rw [h.2 c hc]
  rfl

/-- A word at the start of a path is a field. -/
theorem split_word (h : IsWord name) (hrest : ∀ c ∈ rest.head?, c = '.' ∨ c = '[') :
    split (name ++ rest) = field (String.ofList name) :: split rest := by
  obtain ⟨c, cs, rfl⟩ := List.exists_cons_of_ne_nil h.1
  obtain ⟨hc, hcs⟩ := List.forall_mem_cons.mp (not_isSeparator_of_mem h)
  have hdot : c ≠ '.' := by
    rintro rfl
    cases hc
  have hbracket : c ≠ '[' := by
    rintro rfl
    cases hc
  rw [List.cons_append, split.eq_4 c _ hbracket hdot,
    Text.takeWhile_append hcs (Root.isSeparator_head? hrest),
    Text.dropWhile_append hcs (Root.isSeparator_head? hrest)]

/-- A word behind a dot is a field. -/
theorem split_dot (h : IsWord name) (hrest : ∀ c ∈ rest.head?, c = '.' ∨ c = '[') :
    split ('.' :: (name ++ rest)) = field (String.ofList name) :: split rest := by
  rw [split, Text.takeWhile_append (not_isSeparator_of_mem h) (Root.isSeparator_head? hrest),
    Text.dropWhile_append (not_isSeparator_of_mem h) (Root.isSeparator_head? hrest), if_neg]
  simpa using h.1

theorem split_each (rest : List Char) : split ("[*]".toList ++ rest) = each :: split rest := by
  show split ('[' :: '*' :: ']' :: rest) = _
  rw [split]
  rfl

/-- Splitting undoes what accessors have written. -/
theorem split_texts (h : ∀ s ∈ segments, s.Plain) : split (segments.flatMap text) = segments := by
  induction segments with
  | nil => rw [List.flatMap_nil, split]
  | cons s segments ih =>
    obtain ⟨hs, hsegments⟩ := List.forall_mem_cons.mp h
    rw [List.flatMap_cons]
    cases s with
    | field name =>
      refine (split_dot hs (head?_texts segments)).trans ?_
      rw [String.ofList_toList, ih hsegments]
    | each => rw [text, split_each, ih hsegments]

theorem split_append_texts (hname : IsWord name) (h : ∀ s ∈ segments, s.Plain) :
    split (name ++ segments.flatMap text) = field (String.ofList name) :: segments := by
  rw [split_word hname (head?_texts segments), split_texts h]

end Segment

namespace Accessor

/-! ## Segments of accessors -/

/-- The fields and projections that the accessor stands for. -/
def segments : Accessor → List Segment
  | field key => [.field key]
  | each => [.each]
  | index key => [.ofKey key]
  | fieldPath dotted =>
    ((dotted.toList.splitOn '.').filter (!·.isEmpty)).map fun piece => .ofKey (String.ofList piece)

/-- A key is a word, and no piece of a dotted path has a bracket. -/
def Plain : Accessor → Prop
  | field key | index key => Segment.IsWord key.toList
  | each => True
  | fieldPath dotted => '[' ∉ dotted.toList

instance (a : Accessor) : Decidable a.Plain :=
  match a with
  | field _ | index _ => inferInstanceAs (Decidable (Segment.IsWord _))
  | each => inferInstanceAs (Decidable True)
  | fieldPath _ => inferInstanceAs (Decidable (_ ∉ _))

/-- The fields that a plain accessor stands for have words as names. -/
theorem Plain.segments {a : Accessor} (h : a.Plain) : ∀ s ∈ a.segments, s.Plain := by
  cases a with
  | field key => exact List.forall_mem_singleton.mpr h
  | each => exact List.forall_mem_singleton.mpr trivial
  | index key => exact List.forall_mem_singleton.mpr (Segment.plain_ofKey h)
  | fieldPath dotted =>
    refine List.forall_mem_map.mpr fun piece hpiece => Segment.plain_ofKey ?_
    obtain ⟨hpiece, hne⟩ := List.mem_filter.mp hpiece
    rw [String.toList_ofList]
    refine ⟨by simpa using hne, fun c hc => ?_⟩
    obtain ⟨hmem, hdot⟩ := Text.of_mem_splitOn hpiece hc
    have hbracket : c ≠ '[' := ne_of_mem_of_not_mem hmem h
    simp [Root.isSeparator, hdot, hbracket]

end Accessor

namespace Reference

variable {root root' : Reference} {fields fields' : List String} {accessors : List Accessor}

/-! ## What accessors write -/

theorem path_index (r : Reference) (key : String) :
    (r.index key).path.toList = r.path.toList ++ (Segment.ofKey key).text := by
  unfold index Segment.ofKey
  split
  · simp [each, wildcard, Segment.text]
  · simp [field, Segment.text]

/-- An accessor writes the texts of its segments behind the path. -/
theorem path_access (r : Reference) (a : Accessor) :
    (r.access a).path.toList = r.path.toList ++ a.segments.flatMap Segment.text := by
  cases a with
  | field key => simp [access, field, Accessor.segments, Segment.text]
  | each => simp [access, each, wildcard, Accessor.segments, Segment.text]
  | index key => simp [access, path_index, Accessor.segments]
  | fieldPath dotted =>
    simp only [access, fieldPath, Accessor.segments]
    induction (dotted.toList.splitOn '.').filter (!·.isEmpty) generalizing r with
    | nil => simp
    | cons piece pieces ih =>
      rw [List.foldl_cons, ih, path_index, List.map_cons, List.flatMap_cons, List.append_assoc]

theorem path_follow (r : Reference) (accessors : List Accessor) :
    (r.follow accessors).path.toList =
      r.path.toList ++ (accessors.flatMap Accessor.segments).flatMap Segment.text := by
  induction accessors generalizing r with
  | nil => simp [follow]
  | cons a accessors ih =>
    have hstep : r.follow (a :: accessors) = (r.access a).follow accessors := rfl
    rw [hstep, ih, path_access, List.flatMap_cons, List.flatMap_append, List.append_assoc]

/-! ## Roots -/

/-- A root with its own fields. A step name in it is a word. -/
inductive RootOf : Reference → List String → Prop
  | params : RootOf .params ["params"]
  | stepOutput {name : String} (h : Segment.IsWord name.toList) :
      RootOf (.stepOutput name) ["steps", name, "output"]
  | stepResults {name : String} (h : Segment.IsWord name.toList) :
      RootOf (.stepResults name) ["steps", name, "results"]
  | foreachItem : RootOf .foreachItem ["foreach", "item"]
  | foreachIndex : RootOf .foreachIndex ["foreach", "index"]

/-- The path of a root is its first field and the texts of the others. -/
theorem RootOf.path_eq (h : RootOf root fields) :
    ∃ first more, fields = first :: more ∧ Segment.IsWord first.toList ∧
      (∀ name ∈ more, Segment.IsWord name.toList) ∧
      root.path.toList = first.toList ++ (more.map Segment.field).flatMap Segment.text := by
  have hlast {name word : String} (hname : Segment.IsWord name.toList)
      (hword : Segment.IsWord word.toList) : ∀ s ∈ [name, word], Segment.IsWord s.toList :=
    List.forall_mem_cons.mpr ⟨hname, List.forall_mem_singleton.mpr hword⟩
  cases h with
  | params => exact ⟨_, _, rfl, by decide, List.forall_mem_nil _, rfl⟩
  | stepOutput h =>
    refine ⟨_, _, rfl, by decide, hlast h (by decide), ?_⟩
    simp [Reference.stepOutput, Segment.text]
  | stepResults h =>
    refine ⟨_, _, rfl, by decide, hlast h (by decide), ?_⟩
    simp [Reference.stepResults, Segment.text]
  | foreachItem => exact ⟨_, _, rfl, by decide, List.forall_mem_singleton.mpr (by decide), rfl⟩
  | foreachIndex => exact ⟨_, _, rfl, by decide, List.forall_mem_singleton.mpr (by decide), rfl⟩

/-- The fields of a root are not the beginning of what stands for another one. -/
theorem RootOf.eq_of_append (h : RootOf root fields) (h' : RootOf root' fields')
    {segments segments' : List Segment}
    (heq : fields.map Segment.field ++ segments = fields'.map Segment.field ++ segments') :
    root = root' ∧ segments = segments' := by
  cases h <;> cases h' <;> simp_all

/-- Splitting gives the fields of the root and the segments of the accessors. -/
theorem split_follow (hroot : RootOf root fields) (h : ∀ a ∈ accessors, a.Plain) :
    (root.follow accessors).segments =
      fields.map Segment.field ++ accessors.flatMap Accessor.segments := by
  obtain ⟨first, more, rfl, hfirst, hmore, hpath⟩ := hroot.path_eq
  have hplain : ∀ s ∈ more.map Segment.field ++ accessors.flatMap Accessor.segments, s.Plain := by
    intro s hs
    obtain hs | hs := List.mem_append.mp hs
    · obtain ⟨name, hname, rfl⟩ := List.mem_map.mp hs
      exact hmore name hname
    · obtain ⟨a, ha, hs⟩ := List.mem_flatMap.mp hs
      exact (h a ha).segments s hs
  rw [Reference.segments, path_follow, hpath, List.append_assoc, ← List.flatMap_append,
    Segment.split_append_texts hfirst hplain, String.ofList_toList]
  rfl

/-- A path is split into the fields of its root, a field for every key, a projection for every
access to the elements and the pieces of dotted paths, in order. Two such references have the same
path if and only if their roots are equal and their accessors stand for the same segments. Segments
are what counts as the sequence of accessors here: a field `a` and then a field `b` write the path
that the dotted path `a.b` writes, and no path can tell the two apart. -/
theorem segments_of_follow (hroot : RootOf root fields) (h : ∀ a ∈ accessors, a.Plain) :
    (root.follow accessors).segments =
        fields.map Segment.field ++ accessors.flatMap Accessor.segments ∧
      ∀ root' fields' accessors', RootOf root' fields' → (∀ a ∈ accessors', a.Plain) →
        ((root.follow accessors).path = (root'.follow accessors').path ↔
          root = root' ∧
            accessors.flatMap Accessor.segments = accessors'.flatMap Accessor.segments) := by
  refine ⟨split_follow hroot h, fun root' fields' accessors' hroot' h' => ⟨fun hpath => ?_, ?_⟩⟩
  · have hsplit : (root.follow accessors).segments = (root'.follow accessors').segments := by
      rw [Reference.segments, hpath, Reference.segments]
    rw [split_follow hroot h, split_follow hroot' h'] at hsplit
    exact hroot.eq_of_append hroot' hsplit
  · rintro ⟨rfl, hsegments⟩
    rw [← String.toList_inj, path_follow, path_follow, hsegments]

/-- Accessors with brackets, quotes and blanks in their keys, and with empty pieces. -/
def inPieces : List Accessor :=
  [.each, .field "a]b\" c", .fieldPath "x..*.y.", .field "*"]

/-- Other accessors that write the same path. -/
def inOther : List Accessor :=
  [.index "*", .fieldPath ".a]b\" c.x", .each, .index "y", .field "*"]

theorem segments_of_follow_inPieces :
    RootOf (.stepResults "each page") ["steps", "each page", "results"] ∧
      (∀ a ∈ inPieces, a.Plain) ∧ (∀ a ∈ inOther, a.Plain) ∧
      ((stepResults "each page").follow inPieces).segments =
        [.field "steps", .field "each page", .field "results", .each, .field "a]b\" c", .field "x",
          .each, .field "y", .field "*"] ∧
      inPieces.flatMap Accessor.segments = inOther.flatMap Accessor.segments := by
  have hroot : RootOf (.stepResults "each page") ["steps", "each page", "results"] :=
    .stepResults (by decide)
  have hpieces : ∀ a ∈ inPieces, a.Plain := by decide
  have hother : ∀ a ∈ inOther, a.Plain := by decide
  obtain ⟨hsplit, heq⟩ := segments_of_follow hroot hpieces
  exact ⟨hroot, hpieces, hother, hsplit.trans (by decide),
    ((heq _ _ _ hroot hother).mp (by decide)).2⟩

end Reference
end StepGraph
