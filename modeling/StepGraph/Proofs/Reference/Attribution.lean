import StepGraph.Proofs.Reference.Derived

/-!
# What the path of a result is taken for

The result of a step has the name of the step in its path, and whoever is given the path has to find
the name again. It is done twice. The root is read off what stands behind the first dot, and the
step is the name up to the first dot or bracket.

* `root_of_result`: the root of every path that starts with the result of a step. It depends on the
  name only.
* `stepName_of_result`: the step is the beginning of the name, up to a separator.
-/

namespace StepGraph
namespace Root

/-! ## Roots in front of a dot -/

theorem startsAt_nil (path : List Char) : startsAt [] path = path.head?.all isSeparator := by
  cases path <;> rfl

theorem startsAt_cons_nil (a : Char) (root : List Char) : startsAt (a :: root) [] = false := rfl

theorem startsAt_cons_cons (a c : Char) (root path : List Char) :
    startsAt (a :: root) (c :: path) = (a == c && startsAt root path) := by
  unfold startsAt
  rw [List.isPrefixOf?]
  cases a == c <;> rfl

theorem startsAt_append {root rest : List Char} (h : ∀ c ∈ rest.head?, c = '.' ∨ c = '[') :
    startsAt root (root ++ rest) = true := by
  induction root with
  | nil =>
    rw [List.nil_append, startsAt_nil, Option.all_eq_true]
    intro c hc
    simpa [isSeparator] using h c hc
  | cons a root ih => rw [List.cons_append, startsAt_cons_cons, ih, beq_self_eq_true, Bool.true_and]

/-- A root without dots that a path starts from ends in front of the first dot. -/
theorem startsAt_append_dot {root : List Char} (h : '.' ∉ root) (path rest : List Char) :
    startsAt root (path ++ '.' :: rest) = startsAt root path := by
  induction root generalizing path with
  | nil => cases path <;> rfl
  | cons a root ih =>
    simp only [List.mem_cons, not_or] at h
    cases path with
    | nil =>
      have hne : (a == '.') = false := by simpa using Ne.symm h.1
      rw [List.nil_append, startsAt_cons_cons, startsAt_cons_nil, hne, Bool.false_and]
    | cons c path => rw [List.cons_append, startsAt_cons_cons, startsAt_cons_cons, ih h.2]

/-! ## Names in front of a dot -/

theorem takeWhile_append_dot {p : Char → Bool} (hp : p '.' = false) (name rest : List Char) :
    (name ++ '.' :: rest).takeWhile p = name.takeWhile p :=
  Text.takeWhile_append_of_head? (by simpa using hp) name

theorem dropWhile_ne_dot {name : List Char} (h : '.' ∉ name) : name.dropWhile (· != '.') = [] := by
  rw [List.dropWhile_eq_nil_iff]
  intro c hc
  simpa using ne_of_mem_of_not_mem hc h

theorem takeWhile_ne_dot {name : List Char} (h : '.' ∉ name) :
    name.takeWhile (· != '.') = name := by
  have happend := List.takeWhile_append_dropWhile (p := (· != '.')) (l := name)
  rwa [dropWhile_ne_dot h, List.append_nil] at happend

/-- Behind the first dot of a name there is the rest of the name. -/
theorem drop_dropWhile_append {name : List Char} (h : '.' ∈ name) (rest : List Char) :
    ((name ++ rest).dropWhile (· != '.')).drop 1 = (name.dropWhile (· != '.')).drop 1 ++ rest := by
  have hne : name.dropWhile (· != '.') ≠ [] := by
    intro hnil
    simpa using List.dropWhile_eq_nil_iff.mp hnil '.' h
  rw [List.dropWhile_append, if_neg (by simpa using hne)]
  obtain ⟨c, tail, htail⟩ := List.exists_cons_of_ne_nil hne
  rw [htail]
  rfl

/-! ## The root -/

/-- The word behind the name of a step in the path of its result. -/
inductive HasWord : Root → List Char → Prop
  | output : HasWord stepOutput "output".toList
  | results : HasWord stepResults "results".toList

/-- The root of what starts with the result of a step. With a dot in the name, what stands behind
the dot is taken for the result. -/
def ofResult (kind : Root) (name : List Char) : Root :=
  if '.' ∈ name then ofStepPath name else if name = [] then other else kind

/-- What stands behind the first dot says what the result is. -/
theorem ofStepPath_append_dot {name : List Char} (h : '.' ∉ name) (tail : List Char) :
    ofStepPath (name ++ '.' :: tail) =
      if name = [] then other
      else if startsAt "output".toList tail then stepOutput
      else if startsAt "results".toList tail then stepResults
      else other := by
  have hdrop : ((name ++ '.' :: tail).dropWhile (· != '.')).drop 1 = tail := by
    rw [List.dropWhile_append, dropWhile_ne_dot h]
    rfl
  unfold ofStepPath
  dsimp only
  rw [takeWhile_append_dot rfl, takeWhile_ne_dot h, hdrop]
  by_cases hempty : name = []
  · rw [if_pos hempty, if_pos (List.isEmpty_iff.mpr hempty)]
  · rw [if_neg hempty, if_neg (mt List.isEmpty_iff.mp hempty)]

theorem ofStepPath_append {kind : Root} {word : List Char} (hw : HasWord kind word)
    (name : List Char) {rest : List Char} (h : ∀ c ∈ rest.head?, c = '.' ∨ c = '[') :
    ofStepPath (name ++ '.' :: (word ++ rest)) = ofResult kind name := by
  unfold ofResult
  by_cases hdot : '.' ∈ name
  · rw [if_pos hdot]
    unfold ofStepPath
    dsimp only
    rw [takeWhile_append_dot rfl, drop_dropWhile_append hdot,
      startsAt_append_dot (by decide), startsAt_append_dot (by decide)]
  · rw [if_neg hdot, ofStepPath_append_dot hdot]
    by_cases hempty : name = []
    · rw [if_pos hempty, if_pos hempty]
    · rw [if_neg hempty, if_neg hempty]
      cases hw with
      | output => rw [if_pos (startsAt_append h)]
      | results =>
        have houtput : startsAt "output".toList ("results".toList ++ rest) = false := rfl
        rw [houtput, if_pos (startsAt_append h)]
        rfl

/-- Without a dot in the name, the result of a step is told as what it is. -/
theorem ofResult_eq {kind : Root} {name : List Char} (hne : name ≠ []) (h : '.' ∉ name) :
    ofResult kind name = kind := by
  rw [ofResult, if_neg h, if_neg hne]

end Root

namespace Reference

/-- The path starts with the result of a step. -/
def OfResult (r : Reference) (kind : Root) (name : List Char) : Prop :=
  ∃ word rest, Root.HasWord kind word ∧
    r.path.toList = "steps.".toList ++ (name ++ '.' :: (word ++ rest)) ∧
      ∀ c ∈ rest.head?, c = '.' ∨ c = '['

variable {r : Reference} {kind : Root} {name : List Char}

/-- The root of a path that starts with the result of a step. -/
theorem root_of_result (h : r.OfResult kind name) : r.root = Root.ofResult kind name := by
  obtain ⟨word, rest, hw, hpath, hrest⟩ := h
  have hparams (tail : List Char) :
      Root.startsAt "params".toList ("steps.".toList ++ tail) = false := rfl
  have hitem (tail : List Char) :
      Root.startsAt "foreach.item".toList ("steps.".toList ++ tail) = false := rfl
  have hindex (tail : List Char) :
      Root.startsAt "foreach.index".toList ("steps.".toList ++ tail) = false := rfl
  have hsteps (tail : List Char) :
      Root.afterSteps? ("steps.".toList ++ tail) = some tail := rfl
  unfold root Root.ofPath
  rw [hpath, hparams, hitem, hindex, hsteps]
  exact Root.ofStepPath_append hw name hrest

theorem nameBefore_eq_self_iff :
    nameBefore name = some name ↔ name ≠ [] ∧ ∀ c ∈ name, Root.isSeparator c = false := by
  constructor
  · intro h
    unfold nameBefore at h
    dsimp only at h
    split at h
    · cases h
    · rename_i hne
      have htake := Option.some.inj h
      rw [htake, List.isEmpty_iff] at hne
      refine ⟨hne, fun c hc => ?_⟩
      simpa using List.takeWhile_eq_self_iff.mp htake c hc
  · rintro ⟨hne, h⟩
    exact nameBefore_eq_some hne h

/-- The step that a path tells which starts with the result of a step. -/
theorem stepName_of_result (h : r.OfResult kind name) :
    r.stepName = (nameBefore name).map String.ofList := by
  obtain ⟨word, rest, -, hpath, -⟩ := h
  rw [stepName, hpath, stepNameOfPath_steps]

end Reference
end StepGraph
