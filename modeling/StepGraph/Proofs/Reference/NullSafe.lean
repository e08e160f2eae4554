import StepGraph.Proofs.Json.StringText
import StepGraph.Proofs.Reference.Derived
import StepGraph.Proofs.Reference.Segment
import StepGraph.Reference.Segment

/-!
# Null-safe expressions are read back

The expression of a reference is its first field and a link for every further segment. What a
projection opens is closed at the very end, so an expression is a flat text: the links one after
the other and then the parentheses. A link can be read without knowing what follows, because nothing
that may follow one belongs to an identifier or opens a call: a field named `map` is no projection.

* `readLink_link`: every link is read back.
* `expression_append_inj`: an expression is determined by any text that it stands in.
* `nullSafe_eq_iff`: two references that are reached from roots have the same expression if and only
  if they have the same segments, up to one projection at the end of each.
-/

namespace StepGraph

namespace Reference

variable {name : String}

/-! ## Identifiers -/

theorem isIdentifierRest_of_start {c : Char} (h : isIdentifierStart c = true) :
    isIdentifierRest c = true := by
  simp only [isIdentifierStart, isIdentifierRest, Char.isAlphanum, Bool.or_eq_true] at h ⊢
  tauto

/-- Every character of an identifier may be in one, and it is there. -/
theorem all_of_isIdentifier (h : isIdentifier name = true) :
    name.toList ≠ [] ∧ ∀ c ∈ name.toList, isIdentifierRest c = true := by
  unfold isIdentifier at h
  cases hname : name.toList with
  | nil =>
    rw [hname] at h
    cases h
  | cons c cs =>
    simp only [hname, List.head?_cons, Option.any_some, List.tail_cons, Bool.and_eq_true,
      List.all_eq_true] at h
    exact ⟨List.cons_ne_nil c cs, List.forall_mem_cons.mpr ⟨isIdentifierRest_of_start h.1, h.2⟩⟩

/-- There is no separator in an identifier. -/
theorem isWord_of_isIdentifier (h : isIdentifier name = true) :
    Segment.IsWord name.toList := by
  obtain ⟨hne, hall⟩ := all_of_isIdentifier h
  refine ⟨hne, fun c hc => ?_⟩
  by_contra hsep
  have hc := hall c hc
  simp only [Root.isSeparator, Bool.not_eq_false, Bool.or_eq_true, beq_iff_eq] at hsep
  obtain rfl | rfl := hsep <;> cases hc

end Reference

namespace Segment

open Reference (isIdentifier isIdentifierRest itemVariable extendNullSafe)

variable {name : String} {u v : List Char}

/-- The segments without the projection at their end, if there is one. -/
def withoutLastEach (segments : List Segment) : List Segment :=
  if segments.getLast? = some .each then segments.dropLast else segments

theorem withoutLastEach_cons_cons (s t : Segment) (segments : List Segment) :
    withoutLastEach (s :: t :: segments) = s :: withoutLastEach (t :: segments) := by
  unfold withoutLastEach
  rw [List.getLast?_cons_cons, List.dropLast_cons_cons]
  split <;> rfl

theorem withoutLastEach_field (name : String) (segments : List Segment) :
    withoutLastEach (.field name :: segments) = .field name :: withoutLastEach segments := by
  cases segments with
  | nil => rfl
  | cons s segments => exact withoutLastEach_cons_cons ..

/-! ## Links -/

/-- What a projection opens. -/
def opening : List Char := "?.map((_$$item) => _$$item".toList

/-- What a segment that is not the first one adds to an expression. -/
def link : Segment → List Char
  | field name =>
    '?' :: '.' ::
      if isIdentifier name then name.toList else '[' :: (Json.quoteChars name.toList ++ [']'])
  | each => opening

/-- The links of the segments, and a closing parenthesis for every projection. -/
def links (segments : List Segment) : List Char :=
  segments.flatMap link ++ List.replicate (segments.count .each) ')'

theorem links_field (name : String) (segments : List Segment) :
    links (.field name :: segments) = link (.field name) ++ links segments := by
  simp [links]

theorem links_each (segments : List Segment) :
    links (.each :: segments) = link .each ++ (links segments ++ [')']) := by
  simp [links, List.replicate_succ']

/-- Segments add their links to an expression, but for a projection at the end. -/
theorem extendNullSafe_eq {done : String} (hdone : done ≠ "") (segments : List Segment) :
    (extendNullSafe done segments).toList = done.toList ++ links (withoutLastEach segments) := by
  fun_induction extendNullSafe done segments with
  | case1 done => simp [withoutLastEach, links]
  | case2 done name rest next ih =>
    have hnext : next.toList = done.toList ++ link (.field name) := by
      have hempty : ¬done.isEmpty = true := by simpa using hdone
      unfold next
      rw [if_neg hempty, link]
      by_cases hname : isIdentifier name = true
      · rw [if_pos hname, if_pos hname]
        simp
      · rw [if_neg hname, if_neg hname]
        simp [Json.quote]
    have hne : next ≠ "" := by
      intro h
      rw [h] at hnext
      simp [link] at hnext
    rw [ih hne, hnext, withoutLastEach_field, links_field, List.append_assoc]
  | case3 done => simp [withoutLastEach, links]
  | case4 done rest hrest ih =>
    obtain ⟨s, rest, rfl⟩ := List.exists_cons_of_ne_nil hrest
    have hitem : itemVariable ≠ "" := by decide
    rw [withoutLastEach_cons_cons, links_each]
    simp only [String.toList_append, ih hitem, List.append_assoc]
    rfl

/-! ## Reading a link -/

/-- The field between brackets, and what follows it. -/
def readBracket (cs : List Char) : Option (Segment × List Char) :=
  match Json.stringTail [] cs with
  | .ok (name, ']' :: rest) => some (.field (String.ofList name), rest)
  | _ => none

/-- A call is a projection. Anything else that starts like an identifier is one. -/
def readName (cs : List Char) : Segment × List Char :=
  match cs.dropWhile isIdentifierRest with
  | '(' :: rest => (.each, rest.drop "(_$$item) => _$$item".length)
  | rest => (.field (String.ofList (cs.takeWhile isIdentifierRest)), rest)

/-- The segment of the link at the start of a text, and what follows the link. -/
def readLink : List Char → Option (Segment × List Char)
  | '?' :: '.' :: cs => if cs.head? = some '[' then readBracket (cs.drop 2) else some (readName cs)
  | _ => none

/-- What may follow a link. -/
def Follows (u : List Char) : Prop := ∀ c ∈ u.head?, c ≠ '(' ∧ isIdentifierRest c = false

theorem readName_append {word : List Char} (hword : ∀ c ∈ word, isIdentifierRest c = true)
    (hu : Follows u) : readName (word ++ u) = (.field (String.ofList word), u) := by
  have hhead : ∀ c ∈ u.head?, isIdentifierRest c = false := fun c hc => (hu c hc).2
  unfold readName
  rw [Text.takeWhile_append hword hhead, Text.dropWhile_append hword hhead]
  split
  · exact absurd rfl (hu '(' rfl).1
  · rfl

/-- A link is read back in front of anything that may follow it. -/
theorem readLink_link (s : Segment) (hu : Follows u) : readLink (link s ++ u) = some (s, u) := by
  cases s with
  | each => rfl
  | field name =>
    rw [link]
    by_cases hname : isIdentifier name = true
    · obtain ⟨hne, hword⟩ := Reference.all_of_isIdentifier hname
      have hbracket : (name.toList ++ u).head? ≠ some '[' := by
        intro h
        rw [List.head?_append_of_ne_nil _ hne] at h
        have := hword '[' (List.mem_of_head? h)
        cases this
      rw [if_pos hname, List.cons_append, List.cons_append, readLink, if_neg hbracket,
        readName_append hword hu, String.ofList_toList]
    · have hread : readBracket (name.toList.flatMap Json.escape ++ '"' :: ']' :: u) =
          some (.field name, u) := by
        unfold readBracket
        rw [Json.stringTail_flatMap_escape]
        simp
      rw [if_neg hname, List.cons_append, List.cons_append, List.cons_append, List.append_assoc,
        Json.quoteChars_append]
      exact hread

/-! ## Reading an expression -/

/-- No link starts here, and nothing that belongs to the one before. -/
def Ends (u : List Char) : Prop := ∀ c ∈ u.head?, c ≠ '?' ∧ c ≠ '(' ∧ isIdentifierRest c = false

theorem link_append_eq (s : Segment) (u : List Char) : ∃ rest, link s ++ u = '?' :: rest := by
  cases s with
  | field name => exact ⟨_, rfl⟩
  | each => exact ⟨_, rfl⟩

theorem follows_flatMap (segments : List Segment) (hu : Ends u) :
    Follows (segments.flatMap link ++ u) := by
  cases segments with
  | nil => exact fun c hc => (hu c hc).2
  | cons s segments =>
    obtain ⟨rest, hrest⟩ := link_append_eq s (segments.flatMap link ++ u)
    rw [List.flatMap_cons, List.append_assoc, hrest]
    intro c hc
    cases hc
    decide

/-- No link stands at an end. -/
theorem eq_nil_of_ends {segments : List Segment} (hu : Ends u)
    (h : u = segments.flatMap link ++ v) : segments = [] := by
  cases segments with
  | nil => rfl
  | cons s segments =>
    obtain ⟨rest, hrest⟩ := link_append_eq s (segments.flatMap link ++ v)
    rw [h, List.flatMap_cons, List.append_assoc, hrest] at hu
    exact absurd rfl (hu '?' rfl).1

/-- Links that stand before an end are determined by the text. -/
theorem flatMap_link_append_inj {segments segments' : List Segment} (hu : Ends u) (hv : Ends v)
    (h : segments.flatMap link ++ u = segments'.flatMap link ++ v) :
    segments = segments' ∧ u = v := by
  induction segments generalizing segments' with
  | nil =>
    obtain rfl := eq_nil_of_ends hu h
    exact ⟨rfl, h⟩
  | cons s segments ih =>
    cases segments' with
    | nil => cases eq_nil_of_ends hv h.symm
    | cons t segments' =>
      rw [List.flatMap_cons, List.append_assoc, List.flatMap_cons, List.append_assoc] at h
      have hread := congrArg readLink h
      rw [readLink_link s (follows_flatMap segments hu),
        readLink_link t (follows_flatMap segments' hv)] at hread
      obtain ⟨rfl, hrest⟩ := Prod.mk.inj (Option.some.inj hread)
      obtain ⟨rfl, huv⟩ := ih hrest
      exact ⟨rfl, huv⟩

/-- An expression: a first field and the links of the other segments. -/
def expression (first : List Char) (segments : List Segment) : List Char := first ++ links segments

/-- An expression that stands before an end is determined by the text. -/
theorem expression_append_inj {first first' : List Char} {segments segments' : List Segment}
    (hfirst : ∀ c ∈ first, isIdentifierRest c = true)
    (hfirst' : ∀ c ∈ first', isIdentifierRest c = true) (hu : Ends u) (hv : Ends v)
    (h : expression first segments ++ u = expression first' segments' ++ v) :
    first = first' ∧ segments = segments' ∧ u = v := by
  have hends (n : Nat) {w : List Char} (hw : Ends w) : Ends (List.replicate n ')' ++ w) := by
    cases n with
    | zero => exact hw
    | succ n =>
      intro c hc
      cases hc
      decide
  have hhead {w : List Char} (segments : List Segment) (hw : Ends w) :
      ∀ c ∈ (segments.flatMap link ++ w).head?, isIdentifierRest c = false :=
    fun c hc => (follows_flatMap segments hw c hc).2
  unfold expression links at h
  simp only [List.append_assoc] at h
  have hword := congrArg (List.takeWhile isIdentifierRest) h
  rw [Text.takeWhile_append hfirst (hhead _ (hends _ hu)),
    Text.takeWhile_append hfirst' (hhead _ (hends _ hv))] at hword
  subst hword
  -- With equal segments, as many parentheses follow.
  obtain ⟨rfl, hrest⟩ :=
    flatMap_link_append_inj (hends _ hu) (hends _ hv) (List.append_cancel_left h)
  exact ⟨rfl, rfl, List.append_cancel_left hrest⟩

end Segment

namespace Reference

open Segment (withoutLastEach expression Ends)

variable {r r' : Reference} {u v : List Char}

/-! ## References that are reached from a root -/

/-- A root starts with an identifier, as a path of its own. -/
theorem IsRoot.under_identifier {root : Reference} (h : IsRoot root) :
    ∃ first, isIdentifier first = true ∧ root.Under first := by
  cases h with
  | params => exact ⟨"params", by decide, .refl _⟩
  | stepOutput name =>
    refine ⟨"steps", by decide, '.' :: (name.toList ++ ".output".toList), ?_, by simp⟩
    simp [Reference.stepOutput]
  | stepResults name =>
    refine ⟨"steps", by decide, '.' :: (name.toList ++ ".results".toList), ?_, by simp⟩
    simp [Reference.stepResults]
  | foreachItem => exact ⟨"foreach", by decide, ".item".toList, rfl, by simp⟩
  | foreachIndex => exact ⟨"foreach", by decide, ".index".toList, rfl, by simp⟩

/-- The expression of a derived reference starts with the first field and has a link for every
segment behind it, but for a projection at the end. -/
theorem Derived.nullSafe_eq (h : r.Derived) :
    ∃ first rest, isIdentifier first = true ∧
      withoutLastEach r.segments = .field first :: rest ∧
        r.nullSafe.toList = expression first.toList rest := by
  obtain ⟨root, hroot, hreached⟩ := h
  obtain ⟨first, hfirst, hunder⟩ := hroot.under_identifier
  obtain ⟨tail, hpath, htail⟩ := hreached.under.trans hunder
  have hsegments : r.segments = .field first :: Segment.split tail := by
    rw [segments, hpath, Segment.split_word (isWord_of_isIdentifier hfirst) htail,
      String.ofList_toList]
  have hne : first ≠ "" := by
    rintro rfl
    cases hfirst
  refine ⟨first, withoutLastEach (Segment.split tail), hfirst, ?_, ?_⟩
  · rw [hsegments, Segment.withoutLastEach_field]
  · rw [nullSafe, hsegments]
    exact Segment.extendNullSafe_eq hne _

/-- An expression of a derived reference that stands before an end is determined by the text, and
so are the segments, up to a projection at the end. -/
theorem nullSafe_append_inj (h : r.Derived) (h' : r'.Derived) (hu : Ends u) (hv : Ends v)
    (heq : r.nullSafe.toList ++ u = r'.nullSafe.toList ++ v) :
    withoutLastEach r.segments = withoutLastEach r'.segments ∧
      r.nullSafe = r'.nullSafe ∧ u = v := by
  obtain ⟨first, rest, hfirst, hsegments, htext⟩ := h.nullSafe_eq
  obtain ⟨first', rest', hfirst', hsegments', htext'⟩ := h'.nullSafe_eq
  rw [htext, htext'] at heq
  obtain ⟨hword, rfl, rfl⟩ := Segment.expression_append_inj (all_of_isIdentifier hfirst).2
    (all_of_isIdentifier hfirst').2 hu hv heq
  refine ⟨by rw [hsegments, hsegments', String.toList_inj.mp hword], ?_, rfl⟩
  rw [← String.toList_inj, htext, htext', hword]

/-- Derived references have the same expression if and only if they have the same segments, where a
projection at the end does not count. So an expression determines every field and where the other
projections stand. -/
theorem nullSafe_eq_iff (h : r.Derived) (h' : r'.Derived) :
    r.nullSafe = r'.nullSafe ↔ withoutLastEach r.segments = withoutLastEach r'.segments := by
  constructor
  · intro heq
    have hnil : Ends [] := by simp [Ends]
    exact (nullSafe_append_inj h h' hnil hnil (by rw [heq])).1
  · intro heq
    obtain ⟨first, rest, -, hsegments, htext⟩ := h.nullSafe_eq
    obtain ⟨first', rest', -, hsegments', htext'⟩ := h'.nullSafe_eq
    rw [hsegments, hsegments'] at heq
    cases heq
    rw [← String.toList_inj, htext, htext']

/-- What leads into the results of a step: a projection, a field that is called like one and a field
that has to be quoted. -/
def intoResults : List Accessor := [.each, .field "map", .field "a\"]\n"]

theorem nullSafe_eq_iff_intoResults :
    ∃ r, r = (stepResults "each page").follow intoResults ∧ r.Derived ∧ r.each.Derived ∧
      (r.each.field "x").Derived ∧ (r.field "x").Derived ∧
      r.nullSafe = "steps?.[\"each page\"]?.results?.map((_$$item) => _$$item?.map?.[" ++
        "\"a\\\"]\\n\"])" ∧
      r.nullSafe = r.each.nullSafe ∧ (r.each.field "x").nullSafe ≠ (r.field "x").nullSafe := by
  have hroot : IsRoot (stepResults "each page") := .stepResults _
  have hderived (more : List Accessor) :
      ((stepResults "each page").follow (intoResults ++ more)).Derived := ⟨_, hroot, _, rfl⟩
  have hbase := hderived []
  have heach := hderived [.each]
  have hinner := hderived [.each, .field "x"]
  have hfield := hderived [.field "x"]
  refine ⟨_, rfl, hbase, heach, hinner, hfield, by decide +kernel,
    (nullSafe_eq_iff hbase heach).mpr (by decide +kernel), ?_⟩
  exact mt (nullSafe_eq_iff hinner hfield).mp (by decide +kernel)

end Reference
end StepGraph
