import StepGraph.Proofs.Settings.Reading

/-!
# Sessions with a loader

A session is a sequence of calls to one loader. Between the calls the files and the environment may
change, so every call comes with the world that it finds.

* `Operation.effect`: what a call can do. It reads nothing, or it reads all files, or it fails with
  one of them and changes nothing.
* `Session.Reflects`: the variables of the loader are those of the last call that has read the
  files, and it is loaded if there is such a call. Every call keeps this (`Reflects.call`).
* `Session.faithful_of_run`: what this comes to after every sequence of calls.
-/

namespace StepGraph
namespace Settings
namespace Loader

/-- What a call finds around the loader. -/
structure World where
  read : Read
  environment : Environment

/-- What a call gives. -/
inductive Answer where
  | done
  | credentials (c : Credentials)
  | value (value? : Option String)
  | failed (e : Error)
  deriving DecidableEq, Repr

/-- The call has failed with a file that cannot be read. -/
def Answer.isUnreadable : Answer → Bool
  | failed (.unreadable _ _) => true
  | _ => false

/-- A call to a loader. -/
inductive Operation where
  | load
  | reload
  | credentials
  | get (name : String)
  deriving DecidableEq, Repr

/-- The answer of a call that has succeeded or failed. -/
def Answer.of {α : Type} (succeeded : α → Answer) : Except Error α → Answer
  | .ok a => succeeded a
  | .error e => .failed e

namespace Operation

/-- The answer of a call, and the loader after it. -/
def apply (l : Loader) (w : World) : Operation → Answer × Loader
  | .load => (l.load w.read).map (Answer.of fun _ => .done) id
  | .reload => (l.reload w.read).map (Answer.of fun _ => .done) id
  | .credentials => (l.credentials w.read w.environment).map (Answer.of .credentials) id
  | .get name => (.value (l.get? w.environment name), l)

/-- The call turns to the files. -/
def reads (l : Loader) : Operation → Bool
  | .load | .credentials => !l.isLoaded
  | .reload => true
  | .get _ => false

/-- What a call can do to a loader. -/
inductive Effect (l : Loader) (w : World) (operation : Operation) : Answer → Loader → Prop where
  | idle {answer : Answer} : operation.reads l = false → answer.isUnreadable = false →
      Effect l w operation answer l
  | refreshed {answer : Answer} : operation.reads l = true → CanRead w.read l.files →
      answer.isUnreadable = false →
      Effect l w operation answer
        { l with assigned := Dict.ofList (assignments w.read l.files), isLoaded := true }
  | refused {path : String} {cause : FileError} : operation.reads l = true →
      IsFirstFailure w.read l.files path cause →
      Effect l w operation (.failed (.unreadable path cause)) l

end Operation

theorem get?_of_assigned {l : Loader} {name value : String}
    (h : Dict.get? l.assigned name = some value) (environment : Environment) :
    l.get? environment name = if value = "" then none else some value := by
  unfold get?
  rw [h]
  by_cases hvalue : value = "" <;> simp [Option.filter, hvalue]

theorem get?_of_not_assigned {l : Loader} {name : String} (h : Dict.get? l.assigned name = none)
    (environment : Environment) :
    l.get? environment name =
      if environment name = some "" then none else environment name := by
  unfold get?
  rw [h]
  cases environment name with
  | none => rfl
  | some value => by_cases hvalue : value = "" <;> simp [Option.filter, hvalue]

theorem require_error {l : Loader} {environment : Environment} {name : String} {e : Error}
    (h : l.require environment name = .error e) : e = .missingVariable name := by
  unfold require at h
  cases hget : l.get? environment name with
  | none => simpa [hget] using h.symm
  | some value => simp [hget] at h

/-- Credentials that cannot be put together lack a variable. -/
theorem loadedCredentials_error {l : Loader} {environment : Environment} {e : Error}
    (h : l.loadedCredentials environment = .error e) : ∃ name, e = .missingVariable name := by
  unfold loadedCredentials at h
  simp only [bind, Except.bind] at h
  split at h
  · rename_i hproject
    cases h
    exact ⟨_, require_error hproject⟩
  · split at h
    · rename_i hkey
      cases h
      exact ⟨_, require_error hkey⟩
    · split at h
      · rename_i hregion
        cases h
        exact ⟨_, require_error hregion⟩
      · cases h

namespace Operation

variable (l : Loader) (w : World)

/-- Once a loader is loaded, credentials are put together or a variable is missing. -/
theorem apply_credentials_of_load {l : Loader} {w : World} {next : Loader}
    (h : l.load w.read = (.ok (), next)) :
    ∃ answer, Operation.credentials.apply l w = (answer, next) ∧ answer.isUnreadable = false := by
  simp only [apply, Loader.credentials, h]
  cases hc : next.loadedCredentials w.environment with
  | ok c => exact ⟨.credentials c, rfl, rfl⟩
  | error e =>
    obtain ⟨name, rfl⟩ := loadedCredentials_error hc
    exact ⟨.failed (.missingVariable name), rfl, rfl⟩

/-- A call that turns to the files does what reloading does. -/
theorem effect_of_reads {operation : Operation} (hreads : operation.reads l = true)
    (hok : ∀ next, l.reload w.read = (.ok (), next) →
      ∃ answer, operation.apply l w = (answer, next) ∧ answer.isUnreadable = false)
    (herror : ∀ e next, l.reload w.read = (.error e, next) →
      operation.apply l w = (.failed e, next)) :
    Effect l w operation (operation.apply l w).1 (operation.apply l w).2 := by
  obtain ⟨hread, h⟩ | ⟨path, cause, hfail, h⟩ := reload_cases l w.read
  · obtain ⟨answer, happly, hanswer⟩ := hok _ h
    rw [happly]
    exact .refreshed hreads hread hanswer
  · rw [herror _ _ h]
    exact .refused hreads hfail

/-- A call reads nothing, or all the files, or fails with one of them. -/
theorem effect (operation : Operation) :
    Effect l w operation (operation.apply l w).1 (operation.apply l w).2 := by
  cases operation with
  | get name => exact .idle rfl rfl
  | reload =>
    refine effect_of_reads l w rfl (fun next h => ⟨.done, ?_, rfl⟩) fun e next h => ?_
    · simp [apply, h, Answer.of]
    · simp [apply, h, Answer.of]
  | load =>
    obtain ⟨hl, hload⟩ | ⟨hl, hload⟩ := load_cases l w.read
    · simp only [apply, hload]
      exact .idle (by simp [reads, hl]) rfl
    · have hreads : Operation.load.reads l = true := by simp [reads, hl]
      refine effect_of_reads l w hreads (fun next h => ⟨.done, ?_, rfl⟩) fun e next h => ?_
      · simp [apply, hload, h, Answer.of]
      · simp [apply, hload, h, Answer.of]
  | credentials =>
    obtain ⟨hl, hload⟩ | ⟨hl, hload⟩ := load_cases l w.read
    · obtain ⟨answer, happly, hanswer⟩ := apply_credentials_of_load hload
      rw [happly]
      exact .idle (by simp [reads, hl]) hanswer
    · have hreads : Operation.credentials.reads l = true := by simp [reads, hl]
      refine effect_of_reads l w hreads (fun next h => ?_) fun e next h => ?_
      · exact apply_credentials_of_load (hload.trans h)
      · simp [apply, Loader.credentials, hload, h, Answer.of]

/-- A loader that is loaded turns to no file, except on request. -/
theorem apply_of_isLoaded {l : Loader} (hl : l.isLoaded = true) {operation : Operation}
    (h : operation ≠ .reload) (w : World) (read : Read) :
    operation.apply l { w with read } = ((operation.apply l w).1, l) := by
  cases operation with
  | reload => exact absurd rfl h
  | get name => rfl
  | load => simp [apply, Loader.load, hl, Answer.of]
  | credentials =>
    simp only [apply, Loader.credentials, Loader.load, hl, if_pos]
    cases l.loadedCredentials w.environment <;> rfl

end Operation

/-- A call with the world that it found, and with what it did. -/
structure Entry where
  operation : Operation
  world : World
  before : Loader
  answer : Answer
  after : Loader

/-- The entry has what a call to a loader of the files did. -/
structure Entry.IsCall (files : List String) (entry : Entry) : Prop where
  files : entry.before.files = files
  applied : (entry.answer, entry.after) = entry.operation.apply entry.before entry.world

/-- The call has read all the files. -/
def Entry.isRefresh (entry : Entry) : Bool :=
  entry.operation.reads entry.before && !entry.answer.isUnreadable

/-- A loader with the calls that have been made, the last one first. -/
structure Session where
  loader : Loader
  log : List Entry

namespace Session

/-- A session with a new loader. -/
def start (files : List String) : Session := ⟨{ files }, []⟩

/-- Makes a call. -/
def call (s : Session) (operation : Operation) (w : World) : Session :=
  let (answer, after) := operation.apply s.loader w
  ⟨after, ⟨operation, w, s.loader, answer, after⟩ :: s.log⟩

/-- Makes calls in order. -/
def run (s : Session) : List (Operation × World) → Session
  | [] => s
  | (operation, w) :: rest => (s.call operation w).run rest

/-- The files as they were when they were read last. -/
def lastRead? (s : Session) : Option Read := (s.log.find? (·.isRefresh)).map (·.world.read)

/-- The value that the files give to a variable: that of the last assignment when they were read
last. -/
def assigned? (s : Session) (name : String) : Option String :=
  s.lastRead?.bind fun read => Dict.last? (assignments read s.loader.files) name

/-- What the loader has is what the files had when they were read last. -/
structure Reflects (paths : List String) (s : Session) : Prop where
  files : s.loader.files = paths
  isLoaded : s.loader.isLoaded = s.lastRead?.isSome
  get?_assigned : ∀ name, Dict.get? s.loader.assigned name = s.assigned? name
  log : ∀ entry ∈ s.log, entry.IsCall paths

variable {files : List String} {s : Session}

theorem reflects_start (files : List String) : (start files).Reflects files :=
  ⟨rfl, rfl, fun _ => rfl, nofun⟩

theorem lastRead?_call (s : Session) (operation : Operation) (w : World) :
    (s.call operation w).lastRead? =
      if operation.reads s.loader && !(operation.apply s.loader w).1.isUnreadable then some w.read
      else s.lastRead? := by
  unfold call lastRead? Entry.isRefresh
  simp only [List.find?_cons]
  split <;> rename_i h <;> simp [h]

theorem Reflects.of_same {t : Session} (h : s.Reflects files) (hloader : t.loader = s.loader)
    (hlast : t.lastRead? = s.lastRead?) (hlog : ∀ entry ∈ t.log, entry.IsCall files) :
    t.Reflects files := by
  refine ⟨hloader ▸ h.files, ?_, fun name => ?_, hlog⟩
  · rw [hloader, hlast, h.isLoaded]
  · unfold assigned?
    rw [hloader, hlast]
    exact h.get?_assigned name

/-- A call makes its files the ones that were read last if it has read them. -/
theorem Reflects.call (h : s.Reflects files) (operation : Operation) (w : World) :
    (s.call operation w).Reflects files := by
  have hlog : ∀ entry ∈ (s.call operation w).log, entry.IsCall files :=
    List.forall_mem_cons.mpr ⟨⟨h.files, rfl⟩, h.log⟩
  have he := operation.effect s.loader w
  have hlast := lastRead?_call s operation w
  have hloader : (s.call operation w).loader = (operation.apply s.loader w).2 := rfl
  generalize (operation.apply s.loader w).1 = answer, (operation.apply s.loader w).2 = after at *
  cases he with
  | idle hreads hanswer =>
    have hsame : (s.call operation w).lastRead? = s.lastRead? := by simp [hlast, hreads]
    exact h.of_same hloader hsame hlog
  | refused hreads hfail =>
    have hsame : (s.call operation w).lastRead? = s.lastRead? := by
      simp [hlast, Answer.isUnreadable]
    exact h.of_same hloader hsame hlog
  | refreshed hreads hread hanswer =>
    have hsome : (s.call operation w).lastRead? = some w.read := by simp [hlast, hreads, hanswer]
    refine ⟨hloader ▸ h.files, ?_, fun name => ?_, hlog⟩
    · rw [hloader, hsome]
      rfl
    · unfold assigned?
      rw [hloader, hsome]
      exact (Dict.get?_insertAll [] _ name).trans (Option.or_none ..)

theorem Reflects.run (h : s.Reflects files) (calls : List (Operation × World)) :
    (s.run calls).Reflects files := by
  induction calls generalizing s with
  | nil => exact h
  | cons made rest ih => exact ih (h.call made.1 made.2)

theorem Reflects.assigned?_eq_some (h : s.Reflects files) {read : Read} {name value : String}
    (hread : s.lastRead? = some read) (hlast : Dict.IsLast (assignments read files) name value) :
    s.assigned? name = some value := by
  unfold assigned?
  rw [hread, h.files]
  exact Dict.last?_eq_some_iff.mpr hlast

theorem Reflects.assigned?_eq_none (h : s.Reflects files) {name : String}
    (hkeys : ∀ read, s.lastRead? = some read → name ∉ Dict.keys (assignments read files)) :
    s.assigned? name = none := by
  unfold assigned?
  rw [h.files, Option.bind_eq_none_iff]
  intro read hread
  exact Dict.last?_eq_none_iff.mpr (hkeys read hread)

theorem lastRead?_isSome_iff (s : Session) :
    s.lastRead?.isSome = true ↔ ∃ entry ∈ s.log, entry.isRefresh = true := by
  unfold lastRead?
  rw [Option.isSome_map, List.find?_isSome]

end Session

variable {files : List String}

/-- What a call is allowed to do to a loader of the files. -/
structure Entry.Faithful (files : List String) (entry : Entry) : Prop where
  /-- A call that fails with a file changes nothing. -/
  kept : entry.answer.isUnreadable = true → entry.after = entry.before
  /-- A loader that is loaded turns to no file, except on request. -/
  unread : entry.before.isLoaded = true → entry.operation ≠ .reload → ∀ read,
    entry.operation.apply entry.before { entry.world with read } = (entry.answer, entry.before)
  /-- The files are read if none of them is there that cannot be read. -/
  isRefresh_iff : entry.isRefresh = true ↔
    entry.operation.reads entry.before = true ∧ CanRead entry.world.read files
  unreadable_iff : ∀ path cause, entry.answer = .failed (.unreadable path cause) ↔
    entry.operation.reads entry.before = true ∧
      IsFirstFailure entry.world.read files path cause

theorem Entry.IsCall.faithful {entry : Entry} (h : entry.IsCall files) :
    entry.Faithful files := by
  obtain ⟨operation, w, l, answer, after⟩ := entry
  obtain ⟨rfl, happly⟩ := h
  have he := operation.effect l w
  dsimp only at happly
  have hunread : l.isLoaded = true → operation ≠ .reload → ∀ read,
      operation.apply l { w with read } = (answer, l) := by
    intro hl hoperation read
    rw [Operation.apply_of_isLoaded hl hoperation w read, ← happly]
  rw [← happly] at he
  cases he with
  | idle hreads hanswer =>
    refine ⟨fun _ => rfl, hunread, ?_, fun path cause => ?_⟩
    · simp [isRefresh, hreads]
    · simp only [hreads, Bool.false_eq_true, false_and, iff_false]
      rintro rfl
      cases hanswer
  | refreshed hreads hread hanswer =>
    refine ⟨fun h => ?_, hunread, ?_, fun path cause => ?_⟩
    · simp [hanswer] at h
    · simp [isRefresh, hreads, hanswer, hread]
    · refine iff_of_false ?_ fun h => h.2.not_canRead hread
      rintro rfl
      cases hanswer
  | @refused first cause hreads hfail =>
    refine ⟨fun _ => rfl, hunread, ?_, fun path cause' => ?_⟩
    · simp [isRefresh, hreads, Answer.isUnreadable, hfail.not_canRead]
    · rw [iff_true_intro hreads, true_and]
      constructor
      · intro h
        cases h
        exact hfail
      · intro h
        obtain ⟨rfl, rfl⟩ := hfail.unique h
        rfl

namespace Session

theorem log_run (s : Session) (calls : List (Operation × World)) :
    (s.run calls).log.reverse.map (fun entry => (entry.operation, entry.world)) =
      s.log.reverse.map (fun entry => (entry.operation, entry.world)) ++ calls := by
  induction calls generalizing s with
  | nil => exact (List.append_nil _).symm
  | cons made rest ih => simp [run, ih, call]

/-- What a session of calls to a loader of the files comes to. -/
structure Faithful (paths : List String) (calls : List (Operation × World)) (s : Session) :
    Prop where
  files : s.loader.files = paths
  log : s.log.reverse.map (fun entry => (entry.operation, entry.world)) = calls
  entry : ∀ entry ∈ s.log, entry.Faithful paths
  isLoaded_iff : s.loader.isLoaded = true ↔ ∃ entry ∈ s.log, entry.isRefresh = true
  get?_assigned : ∀ name, Dict.get? s.loader.assigned name = s.assigned? name
  /-- The files win over the environment, also with an empty value, which counts as none. -/
  get_assigned : ∀ w read name value, s.lastRead? = some read →
    Dict.IsLast (assignments read paths) name value →
    (Operation.get name).apply s.loader w =
      (.value (if value = "" then none else some value), s.loader)
  get_environment : ∀ w name,
    (∀ read, s.lastRead? = some read → name ∉ Dict.keys (assignments read paths)) →
    (Operation.get name).apply s.loader w =
      (.value (if w.environment name = some "" then none else w.environment name), s.loader)

/-- After every sequence of calls a loader has the variables of the files as they were when they
were read last, whatever happened to them since. -/
theorem faithful_of_run (files : List String) (calls : List (Operation × World)) :
    ((start files).run calls).Faithful files calls := by
  have h := (reflects_start files).run calls
  have hcalls := (start files).log_run calls
  generalize (start files).run calls = s at h hcalls
  refine ⟨h.files, hcalls, fun entry he => (h.log entry he).faithful, ?_, h.get?_assigned, ?_, ?_⟩
  · rw [h.isLoaded]
    exact s.lastRead?_isSome_iff
  · intro w read name value hread hlast
    have hvalue := h.assigned?_eq_some hread hlast
    rw [Operation.apply, get?_of_assigned ((h.get?_assigned name).trans hvalue)]
  · intro w name hkeys
    have hnone := h.assigned?_eq_none hkeys
    rw [Operation.apply, get?_of_not_assigned ((h.get?_assigned name).trans hnone)]

/-- A file that has changed stays unread until that is asked for, and a folder in its place takes
nothing away. -/
example :
    let hello : World := ⟨fun _ => .ok "A=hello\nA='hello, you'", fun _ => none⟩
    let folder : World := ⟨fun _ => .error .isDirectory, fun _ => none⟩
    let bye : World := ⟨fun _ => .ok "A=", fun _ => some "set"⟩
    ((start [".env"]).run [(.load, hello), (.load, bye), (.reload, folder), (.get "A", bye),
        (.reload, bye), (.get "A", bye)]).log.reverse.map (·.answer) =
      [.done, .done, .failed (.unreadable ".env" .isDirectory), .value (some "hello, you"), .done,
        .value none] := by
  rfl

end Session
end Loader
end Settings
end StepGraph
