import StepGraph.Settings

/-!
# What reading files gives

Files are read in order into one dictionary. So a variable has the value of its last assignment in
the texts of all the files, one after the other, and files that do not exist add nothing.

* `Dict.get?_insertAll`: what is found under a key is the last value that it was given.
* `readFiles_of_canRead`, `readFiles_of_failure`: the reading succeeds if no file is there that
  cannot be read, and else fails with the first such file.
-/

namespace StepGraph

namespace Dict

variable {α : Type}

/-- The value of the last member with the key. -/
def last? (members : List (String × α)) (key : String) : Option α :=
  (members.findRev? (·.1 == key)).map Prod.snd

/-- The member with the key and the value is the last one with the key. -/
def IsLast (members : List (String × α)) (key : String) (value : α) : Prop :=
  ∃ before after, members = before ++ (key, value) :: after ∧ key ∉ keys after

theorem last?_cons (m : String × α) (rest : List (String × α)) (key : String) :
    last? (m :: rest) key = (last? rest key).or (if m.1 = key then some m.2 else none) := by
  simp only [last?, List.findRev?]
  cases rest.findRev? (·.1 == key) with
  | some last => rfl
  | none => by_cases h : m.1 = key <;> simp [h]

theorem last?_eq_none_iff {members : List (String × α)} {key : String} :
    last? members key = none ↔ key ∉ keys members := by
  induction members with
  | nil => simp [last?, keys, List.findRev?]
  | cons m rest ih =>
    rw [last?_cons, Option.or_eq_none_iff, ih]
    simp [keys, eq_comm, and_comm]

theorem last?_eq_some_iff {members : List (String × α)} {key : String} {value : α} :
    last? members key = some value ↔ IsLast members key value := by
  constructor
  · intro h
    induction members with
    | nil => simp [last?, List.findRev?] at h
    | cons m rest ih =>
      rw [last?_cons] at h
      cases hrest : last? rest key with
      | some last =>
        rw [hrest] at h
        cases h
        obtain ⟨before, after, rfl, hafter⟩ := ih hrest
        exact ⟨m :: before, after, rfl, hafter⟩
      | none =>
        by_cases hm : m.1 = key
        · simp only [hrest, hm, if_pos, Option.none_or] at h
          cases h
          subst hm
          exact ⟨[], rest, rfl, last?_eq_none_iff.mp hrest⟩
        · simp [hrest, hm] at h
  · rintro ⟨before, after, rfl, hafter⟩
    induction before with
    | nil =>
      rw [List.nil_append, last?_cons, last?_eq_none_iff.mpr hafter]
      simp
    | cons m before ih =>
      rw [List.cons_append, last?_cons, ih]
      rfl

/-- What is found under a key is the last value that it was given, or the one from before. -/
theorem get?_insertAll (d : Dict α) (members : List (String × α)) (key : String) :
    get? (insertAll d members) key = (last? members key).or (get? d key) := by
  induction members generalizing d with
  | nil => rfl
  | cons m rest ih =>
    calc get? (insertAll d (m :: rest)) key
        = get? (insertAll (insert d m.1 m.2) rest) key := rfl
      _ = (last? rest key).or (get? (insert d m.1 m.2) key) := ih _
      _ = (last? rest key).or ((if m.1 = key then some m.2 else none).or (get? d key)) := by
        rw [get?_insert]
        split <;> rfl
      _ = (last? (m :: rest) key).or (get? d key) := by rw [last?_cons, Option.or_assoc]

end Dict

namespace Settings
namespace Loader

/-- The assignments in the files that exist, in order. -/
def assignments (read : Read) (files : List String) : List (String × String) :=
  files.flatMap fun path =>
    match read path with
    | .ok text => EnvFile.assignments text
    | .error _ => []

/-- Every file can be read or does not exist. -/
def CanRead (read : Read) (files : List String) : Prop :=
  ∀ path ∈ files, ∀ cause, read path = .error cause → cause = .notFound

/-- The file is the first one that is there and cannot be read. -/
def IsFirstFailure (read : Read) (files : List String) (path : String) (cause : FileError) :
    Prop :=
  ∃ before after, files = before ++ path :: after ∧ CanRead read before ∧
    read path = .error cause ∧ cause ≠ .notFound

variable {read : Read} {files : List String}

theorem IsFirstFailure.not_canRead {path : String} {cause : FileError}
    (h : IsFirstFailure read files path cause) : ¬CanRead read files := by
  obtain ⟨before, after, rfl, -, hread, hcause⟩ := h
  exact fun hall => hcause (hall path (by simp) cause hread)

/-- The files are read into what is there already. -/
theorem readFiles_of_canRead (h : CanRead read files) (d : Dict String) :
    readFiles read d files = .ok (Dict.insertAll d (assignments read files)) := by
  induction files generalizing d with
  | nil => rfl
  | cons path rest ih =>
    obtain ⟨hpath, hrest⟩ := List.forall_mem_cons.mp h
    unfold readFiles assignments
    rw [List.flatMap_cons]
    cases hread : read path with
    | ok text =>
      simp only [ih hrest]
      unfold Dict.insertAll
      rw [List.foldl_append]
      rfl
    | error cause =>
      cases hpath cause hread
      exact ih hrest d

/-- The error has the first file that is there and cannot be read. -/
theorem readFiles_of_failure {path : String} {cause : FileError}
    (h : IsFirstFailure read files path cause) (d : Dict String) :
    readFiles read d files = .error (.unreadable path cause) := by
  obtain ⟨before, after, rfl, hbefore, hread, hcause⟩ := h
  induction before generalizing d with
  | nil =>
    rw [List.nil_append, readFiles, hread]
    cases cause <;> first | rfl | exact absurd rfl hcause
  | cons first before ih =>
    obtain ⟨hfirst, hrest⟩ := List.forall_mem_cons.mp hbefore
    rw [List.cons_append, readFiles]
    cases hr : read first with
    | ok text => exact ih _ hrest
    | error e =>
      cases hfirst e hr
      exact ih d hrest

theorem IsFirstFailure.unique {p q : String} {c d : FileError} (hp : IsFirstFailure read files p c)
    (hq : IsFirstFailure read files q d) : p = q ∧ c = d := by
  have h := (readFiles_of_failure hp []).symm.trans (readFiles_of_failure hq [])
  cases h
  exact ⟨rfl, rfl⟩

/-- Some file fails first, if not all of them can be read. -/
theorem canRead_or_failure (read : Read) (files : List String) :
    CanRead read files ∨ ∃ path cause, IsFirstFailure read files path cause := by
  induction files with
  | nil => exact .inl nofun
  | cons path rest ih =>
    by_cases hpath : ∃ cause, read path = .error cause ∧ cause ≠ .notFound
    · obtain ⟨cause, hread, hcause⟩ := hpath
      exact .inr ⟨path, cause, [], rest, rfl, nofun, hread, hcause⟩
    · have hhead : ∀ cause, read path = .error cause → cause = .notFound := by
        intro cause hread
        by_cases hcause : cause = .notFound
        · exact hcause
        · exact absurd ⟨cause, hread, hcause⟩ hpath
      obtain hrest | ⟨later, cause, before, after, rfl, hbefore, hlater⟩ := ih
      · exact .inl (List.forall_mem_cons.mpr ⟨hhead, hrest⟩)
      · refine .inr ⟨later, cause, path :: before, after, rfl, ?_, hlater⟩
        exact List.forall_mem_cons.mpr ⟨hhead, hbefore⟩

/-- Reloading puts the assignments of the files in the place of what is there, or fails with a file
that cannot be read and changes nothing. -/
theorem reload_cases (l : Loader) (read : Read) :
    (CanRead read l.files ∧ l.reload read =
      (.ok (), { l with assigned := Dict.ofList (assignments read l.files), isLoaded := true })) ∨
    ∃ path cause, IsFirstFailure read l.files path cause ∧
      l.reload read = (.error (.unreadable path cause), l) := by
  unfold reload
  obtain h | ⟨path, cause, h⟩ := canRead_or_failure read l.files
  · exact .inl ⟨h, by rw [readFiles_of_canRead h]; rfl⟩
  · exact .inr ⟨path, cause, h, by rw [readFiles_of_failure h]⟩

/-- Loading is reloading, but once only. -/
theorem load_cases (l : Loader) (read : Read) :
    (l.isLoaded = true ∧ l.load read = (.ok (), l)) ∨
    (l.isLoaded = false ∧ l.load read = l.reload read) := by
  unfold load
  cases h : l.isLoaded
  · exact .inr ⟨rfl, by simp⟩
  · exact .inl ⟨rfl, by simp⟩

end Loader
end Settings
end StepGraph
