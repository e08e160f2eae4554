import StepGraph.Proofs.Document.Decoding
import StepGraph.Proofs.Json.Same

/-!
# What a document keeps when it is read and written

A reader takes more than a writer gives back: a closed record drops the members that are no fields,
`null` may stand for a field without a value, and a name or a record may be written in another form.
`Alike s j v` says that two JSON values are the same along the shape `s`, up to the order of members
and, where the shape has a float, the spelling of the number. `Verbatim s j` lists what keeps a
value: nothing in it is dropped, no number is rounded, no name or record has its other form.

* `alike_iff_verbatim`: the document that is written for what was read is like the one that was
  read if and only if this was verbatim.
-/

namespace StepGraph

/-- The exact size of a number, in units of `2 ^ -1074`. -/
def Number.units : Number → Int
  | .integer n _ => n * Magnitude.one
  | .float x => if x.negative then -x.magnitude.units else x.magnitude.units

namespace Document

open Json

/-- What stands under a key of a record: a field of the record, or any value. -/
def Record.shapeOf (r : Record) (key : String) : Shape :=
  match r.fields.find? (·.key == key) with
  | some f => f.shape
  | none => .any

/-- Values of the shape have no parts of another shape, and no number whose spelling may change. -/
def Shape.isPlain : Shape → Bool
  | float64 | list _ | dict _ | record _ => false
  | _ => true

/-- The same value along the shape. The order of members does not count, nor the spelling of numbers
where the shape has floats. -/
inductive Alike : Shape → Json → Json → Prop
  | plain {s : Shape} {j v : Json} (hs : s.isPlain = true) (h : j.same v = true) : Alike s j v
  | float {x y : Number} (h : x.units = y.units) : Alike .float64 (.number x) (.number y)
  | list {item : Shape} {js vs : List Json} (hlength : js.length = vs.length)
      (h : ∀ p ∈ js.zip vs, Alike item p.1 p.2) : Alike (.list item) (.array js) (.array vs)
  | dict {entry : Shape} {ms vs : Dict Json}
      (hkeys : ∀ key, key ∈ Dict.keys ms ↔ key ∈ Dict.keys vs)
      (h : ∀ key j v, Dict.get? ms key = some j → Dict.get? vs key = some v → Alike entry j v) :
      Alike (.dict entry) (.object ms) (.object vs)
  | record {r : Record} {ms vs : Dict Json}
      (hkeys : ∀ key, key ∈ Dict.keys ms ↔ key ∈ Dict.keys vs)
      (h : ∀ key j v, Dict.get? ms key = some j → Dict.get? vs key = some v →
        Alike (r.shapeOf key) j v) : Alike (.record r) (.object ms) (.object vs)

/-- `null` in place of the field means that it is left out. -/
def Presence.DropsNull {α : Type} : Presence α → Prop
  | optional | omittable => True
  | _ => False

/-- Nothing in the value gets lost or changes along the shape. -/
inductive Verbatim : Shape → Json → Prop
  | any {j : Json} : Verbatim .any j
  | text {s : String} : Verbatim .text (.string s)
  | flag {b : Bool} : Verbatim .flag (.bool b)
  | int64 {x : Number} : Verbatim .int64 (.number x)
  | contentType {name : String} : Verbatim .contentType (.string name)
  | status {name : String} : Verbatim .status (.string name)
  /-- A float of exactly this size. -/
  | float {x : Number} {y : Finite64} (hy : toFinite64 x = .ok y)
      (h : x.units = (Number.float y).units) : Verbatim .float64 (.number x)
  | list {item : Shape} {js : List Json} (h : ∀ j ∈ js, Verbatim item j) :
      Verbatim (.list item) (.array js)
  | dict {entry : Shape} {ms : Dict Json} (h : ∀ m ∈ ms, Verbatim entry m.2) :
      Verbatim (.dict entry) (.object ms)
  | record {r : Record} {ms : Dict Json}
      -- a field with a default is written even where it was left out
      (hdefault : ∀ f ∈ r.fields, ∀ value, f.presence = .defaulted value → f.key ∈ Dict.keys ms)
      (hnull : ∀ f ∈ r.fields, f.presence.DropsNull → (f.key, .null) ∉ ms)
      (hclosed : r.isOpen = false → ∀ key ∈ Dict.keys ms, key ∈ r.fields.map (·.key))
      (h : ∀ m ∈ ms, Verbatim (r.shapeOf m.1) m.2) : Verbatim (.record r) (.object ms)

/-! ## What is written under a key -/

section

variable {α : Type} {fs : List Field} {key : String}

/-- The value that is written for a field, if any. -/
def Presence.json? (toJson : α → Json) : (p : Presence α) → p.Carrier → Option Json
  | required, a | defaulted _, a => some (toJson a)
  | optional, a | omittable, a | nullable, a => a.map toJson

theorem get?_optionalMember (toJson : α → Json) (a : Option α) (k : String) :
    Dict.get? (optionalMember key toJson a) k = if key = k then a.map toJson else none := by
  cases a <;> simp [optionalMember, Dict.get?]

theorem get?_members (toJson : α → Json) (p : Presence α) (a : p.Carrier) (k : String) :
    Dict.get? (p.members key toJson a) k = if key = k then p.json? toJson a else none := by
  cases p with
  | required | defaulted => rfl
  | optional | omittable | nullable => exact get?_optionalMember toJson a k

/-- Under a key of no field stands what is kept. -/
theorem get?_append_of_not_mem {slots : Slots fs} {extra : Dict Json}
    (hkey : key ∉ fs.map (·.key)) :
    Dict.get? (Slots.members fs slots ++ extra) key = Dict.get? extra key := by
  induction fs with
  | nil => rfl
  | cons f fs ih =>
    obtain ⟨value, values⟩ := slots
    rw [List.map_cons, List.mem_cons, not_or] at hkey
    rw [Slots.members, List.append_assoc, Dict.get?_append, get?_members,
      if_neg (Ne.symm hkey.1), Option.none_or]
    exact ih hkey.2

/-- Under the key of a field stands the value of the field. -/
theorem exists_value_of_mem {P : (f : Field) → Option Json → f.Carrier → Prop} {ms : Dict Json}
    {slots : Slots fs} {extra : Dict Json} (h : Slots.Decode P ms fs slots)
    (hnodup : (fs.map (·.key)).Nodup) {f : Field} (hf : f ∈ fs)
    (hextra : Dict.get? extra f.key = none) : ∃ value, P f (Dict.get? ms f.key) value ∧
      Dict.get? (Slots.members fs slots ++ extra) f.key =
        f.presence.json? f.shape.toJson value := by
  induction fs with
  | nil => cases hf
  | cons f' fs ih =>
    obtain ⟨value, values⟩ := slots
    obtain ⟨hvalue, hvalues⟩ := h
    obtain ⟨hnew, hnodup⟩ := List.nodup_cons.mp hnodup
    rw [Slots.members, List.append_assoc, Dict.get?_append, get?_members]
    rcases List.mem_cons.mp hf with rfl | hf
    · refine ⟨value, hvalue, ?_⟩
      rw [if_pos rfl, get?_append_of_not_mem hnew, hextra, Option.or_none]
    · have hkey : f'.key ≠ f.key := fun hk => hnew (List.mem_map.mpr ⟨f, hf, hk.symm⟩)
      rw [if_neg hkey, Option.none_or]
      exact ih hvalues hnodup hf

theorem find?_eq_some_of_mem (hnodup : (fs.map (·.key)).Nodup) {f : Field} (hf : f ∈ fs) :
    fs.find? (·.key == f.key) = some f := by
  induction fs with
  | nil => cases hf
  | cons f' fs ih =>
    obtain ⟨hnew, hnodup⟩ := List.nodup_cons.mp hnodup
    rcases List.mem_cons.mp hf with rfl | hf
    · exact List.find?_cons_of_pos (beq_self_eq_true _)
    · have hkey : f'.key ≠ f.key := fun hk => hnew (List.mem_map.mpr ⟨f, hf, hk.symm⟩)
      rw [List.find?_cons_of_neg (by simpa using hkey)]
      exact ih hnodup hf

theorem Record.shapeOf_field {r : Record} {f : Field} (hf : f ∈ r.fields) :
    r.shapeOf f.key = f.shape := by
  rw [shapeOf, find?_eq_some_of_mem (fields_nodup r) hf]

theorem Record.shapeOf_of_not_mem {r : Record} (hkey : key ∉ r.fields.map (·.key)) :
    r.shapeOf key = .any := by
  have hnone : r.fields.find? (·.key == key) = none := by
    rw [List.find?_eq_none]
    intro f hf heq
    exact hkey (eq_of_beq heq ▸ List.mem_map_of_mem hf)
  rw [shapeOf, hnone]

end

/-! ## Values without a container -/

/-- A name from the table of a content type is written again. -/
theorem ContentType.name_of_get? {name : String} {c : ContentType}
    (h : Dict.get? ContentType.table name = some c) : c.name = name := by
  have hall : ∀ m ∈ ContentType.table, m.2.name = m.1 := by decide
  exact hall _ (Dict.mem_of_get?_eq_some h)

theorem Status.name_of_get? {name : String} {s : Run.Status}
    (h : Dict.get? Run.Status.table name = some s) : s.name = name := by
  have hall : ∀ m ∈ Run.Status.table, m.2.name = m.1 := by decide
  exact hall _ (Dict.mem_of_get?_eq_some h)

/-- A name is kept unless it is the key of an object. -/
theorem alike_name_iff {α : Type} {table : List (String × α)} {nameOf : α → String}
    (htable : ∀ {name a}, Dict.get? table name = some a → nameOf a = name) {j : Json} {a : α}
    (h : Named table j a) : j.same (.string (nameOf a)) = true ↔ ∃ name, j = .string name := by
  obtain ⟨name, hname, rfl | rfl⟩ := h
  · rw [htable hname]
    exact iff_of_true (beq_self_eq_true name) ⟨name, rfl⟩
  · exact iff_of_false nofun nofun

/-- An integer that is read is written again. -/
theorem same_of_toInt64 {x : Number} {n : Int64} (h : toInt64 x = .ok n) :
    x.same (.ofInt64 n) = true := by
  cases x with
  | float x => cases h
  | integer i hi =>
    rw [toInt64] at h
    split at h
    · rename_i hlt
      cases h
      have hround : (Int64.ofInt i).toInt = i :=
        Int64.toInt_ofInt_of_le hi.1 (show i < 0x8000000000000000 from hlt)
      show (i == (Int64.ofInt i).toInt) = true
      rw [hround]
      exact beq_self_eq_true i
    · cases h

/-- In a plain place values are alike if they are equal. -/
theorem alike_plain_iff {s : Shape} (hs : s.isPlain = true) {j v : Json} :
    Alike s j v ↔ j.same v = true := by
  refine ⟨fun halike => ?_, .plain hs⟩
  cases halike with
  | plain _ hsame => exact hsame
  | float | list | dict | record => cases hs

theorem verbatim_contentType_iff {j : Json} :
    Verbatim .contentType j ↔ ∃ name, j = .string name := by
  constructor
  · rintro ⟨⟩
    exact ⟨_, rfl⟩
  · rintro ⟨name, rfl⟩
    exact .contentType

theorem verbatim_status_iff {j : Json} : Verbatim .status j ↔ ∃ name, j = .string name := by
  constructor
  · rintro ⟨⟩
    exact ⟨_, rfl⟩
  · rintro ⟨name, rfl⟩
    exact .status

/-- A float is written like the number that was read unless this had to be rounded. -/
theorem alike_float_iff {x : Number} {y : Finite64} (hy : toFinite64 x = .ok y) :
    Alike .float64 (.number x) (.number (.float y)) ↔ Verbatim .float64 (.number x) := by
  constructor
  · intro halike
    cases halike with
    | plain hs => cases hs
    | float hunits => exact .float hy hunits
  · intro hverbatim
    cases hverbatim with
    | float hy' hunits =>
      cases hy.symm.trans hy'
      exact .float hunits

variable {limit : Nat}

/-- A value without a container is written as it was, unless it is a name in its other form or a
number that was rounded. -/
theorem alike_iff_verbatim_scalar {s : Shape} (hs : s.isScalar = true) {j : Json} {value : s.Carrier}
    (h : Decodes Eq limit s j value) : Alike s j (s.toJson value) ↔ Verbatim s j := by
  cases s with
  | any | list | dict | record => cases hs
  | text =>
    rw [Decodes] at h
    subst h
    exact iff_of_true (.plain rfl (beq_self_eq_true value)) .text
  | flag =>
    rw [Decodes] at h
    subst h
    exact iff_of_true (.plain rfl (beq_self_eq_true value)) .flag
  | int64 =>
    rw [Decodes] at h
    obtain ⟨x, _, rfl, rfl, hx⟩ := h
    exact iff_of_true (.plain rfl (same_of_toInt64 hx)) .int64
  | float64 =>
    rw [Decodes] at h
    obtain ⟨x, _, rfl, rfl, hx⟩ := h
    exact alike_float_iff hx
  | contentType =>
    rw [Decodes] at h
    rw [alike_plain_iff rfl, verbatim_contentType_iff]
    exact alike_name_iff ContentType.name_of_get? h
  | status =>
    rw [Decodes] at h
    rw [alike_plain_iff rfl, verbatim_status_iff]
    exact alike_name_iff Status.name_of_get? h

/-! ## Lists and mappings -/

theorem alike_list_iff {item : Shape} {js : List Json} {values : List item.Carrier}
    (h : List.Forall₂ (fun j v => Alike item j (item.toJson v) ↔ Verbatim item j) js values) :
    Alike (.list item) (.array js) (.array (values.map item.toJson)) ↔
      Verbatim (.list item) (.array js) := by
  have hitems : (∀ p ∈ js.zip (values.map item.toJson), Alike item p.1 p.2) ↔
      ∀ j ∈ js, Verbatim item j := by
    induction h with
    | nil => exact iff_of_true nofun nofun
    | cons hj _ ih =>
      rw [List.map_cons, List.zip_cons_cons, List.forall_mem_cons, List.forall_mem_cons, hj, ih]
  have hlength : js.length = (values.map item.toJson).length := by
    rw [List.length_map]
    exact h.length_eq
  constructor
  · intro halike
    cases halike with
    | plain hs => cases hs
    | list _ hall => exact .list (hitems.mp hall)
  · intro hverbatim
    cases hverbatim with
    | list hall => exact .list hlength (hitems.mpr hall)

theorem get?_map {α : Type} (toJson : α → Json) (d : Dict α) (key : String) :
    Dict.get? (d.map fun v => (v.1, toJson v.2)) key = (Dict.get? d key).map toJson := by
  induction d with
  | nil => rfl
  | cons m d ih =>
    obtain ⟨k, v⟩ := m
    rw [List.map_cons, Dict.get?, Dict.get?]
    split
    · rfl
    · exact ih

theorem alike_object_iff {entry : Shape} {ms vs : Dict Json} :
    Alike (.dict entry) (.object ms) (.object vs) ↔
      ∀ key, Option.Rel (Alike entry) (Dict.get? ms key) (Dict.get? vs key) := by
  rw [Dict.forall_rel_get?_iff]
  constructor
  · intro halike
    cases halike with
    | plain hs => cases hs
    | dict hkeys h => exact ⟨hkeys, h⟩
  · exact fun ⟨hkeys, h⟩ => .dict hkeys h

theorem alike_dict_iff {entry : Shape} {ms : Dict Json} {values : Dict entry.Carrier}
    (hms : (Dict.keys ms).Nodup)
    (h : Dict.Rel (fun j v => Alike entry j (entry.toJson v) ↔ Verbatim entry j) ms values) :
    Alike (.dict entry) (.object ms) (Shape.toJson (.dict entry) values) ↔
      Verbatim (.dict entry) (.object ms) := by
  rw [Shape.toJson, alike_object_iff]
  constructor
  · refine fun halike => .dict fun m hm => ?_
    have hkey := halike m.1
    have hiff := h.get? m.1
    rw [get?_map] at hkey
    rw [(Dict.get?_eq_some_iff hms).mpr hm] at hkey hiff
    generalize Dict.get? values m.1 = v at hkey hiff
    cases hiff with
    | some hiff =>
      cases hkey with
      | some hv => exact hiff.mp hv
  · intro hverbatim key
    cases hverbatim with
    | dict hall =>
      have hiff := h.get? key
      rw [get?_map]
      generalize hj : Dict.get? ms key = member, Dict.get? values key = v at hiff ⊢
      cases hiff with
      | none => exact .none
      | some hiff => exact .some (hiff.mpr (hall _ (Dict.mem_of_get?_eq_some hj)))

/-! ## Records -/

/-- The value of a field is written where it was read, and like it, if and only if it was there,
verbatim and not as a `null` that is dropped. -/
theorem alike_field_iff {α : Type} (p : Presence α) {D : Json → α → Prop} {toJson : α → Json}
    {s : Shape} {member : Option Json} {a : p.Carrier} (ha : p.Decodes D member a)
    (h : ∀ j v, member = some j → D j v → (Alike s j (toJson v) ↔ Verbatim s j)) :
    Option.Rel (Alike s) member (p.json? toJson a) ↔
      (∀ value, p = .defaulted value → member ≠ none) ∧ (p.DropsNull → member ≠ some .null) ∧
        ∀ j, member = some j → Verbatim s j := by
  have hsome {j : Json} {v : α} (hj : member = some j) (hv : D j v) :
      Option.Rel (Alike s) (some j) (some (toJson v)) ↔ ∀ i, some j = some i → Verbatim s i := by
    constructor
    · intro hrel i hi
      cases hi
      cases hrel with
      | some halike => exact (h j v hj hv).mp halike
    · exact fun hverbatim => .some ((h j v hj hv).mpr (hverbatim j rfl))
  cases member with
  | none =>
    cases p with
    | required => cases ha
    | defaulted default => exact iff_of_false nofun fun h => h.1 default rfl rfl
    | optional | omittable | nullable =>
      cases ha
      exact iff_of_true .none ⟨nofun, nofun, nofun⟩
  | some j =>
    cases p with
    | required | defaulted =>
      exact (hsome rfl ha).trans ⟨fun hj => ⟨nofun, nofun, hj⟩, fun hj => hj.2.2⟩
    | optional | omittable =>
      obtain ⟨rfl, rfl⟩ | ⟨hj, v, rfl, hv⟩ := ha
      · exact iff_of_false nofun fun h => h.2.1 trivial rfl
      · have hnull : some j ≠ some .null := fun heq => hj (Option.some.inj heq)
        exact (hsome rfl hv).trans ⟨fun hj => ⟨nofun, fun _ => hnull, hj⟩, fun hj => hj.2.2⟩
    | nullable =>
      obtain ⟨v, rfl, hv⟩ := ha
      exact (hsome rfl hv).trans ⟨fun hj => ⟨nofun, nofun, hj⟩, fun hj => hj.2.2⟩

variable {r : Record} {ms extra : Dict Json} {slots : Slots r.fields}

theorem alike_record_iff {vs : Dict Json} : Alike (.record r) (.object ms) (.object vs) ↔
    ∀ key, Option.Rel (Alike (r.shapeOf key)) (Dict.get? ms key) (Dict.get? vs key) := by
  rw [Dict.forall_rel_get?_iff]
  constructor
  · intro halike
    cases halike with
    | plain hs => cases hs
    | record hkeys h => exact ⟨hkeys, h⟩
  · exact fun ⟨hkeys, h⟩ => .record hkeys h

theorem Keeps.get?_field {M : Number → Number → Prop} (h : Keeps M r ms extra) {key : String}
    (hkey : key ∈ r.fields.map (·.key)) : Dict.get? extra key = none := by
  have hk := h key
  rw [if_neg fun hopen => hopen.2 hkey] at hk
  generalize Dict.get? extra key = v at hk
  cases hk
  rfl

theorem Keeps.get?_closed {M : Number → Number → Prop} (h : Keeps M r ms extra)
    (hr : r.isOpen = false) (key : String) : Dict.get? extra key = none := by
  have hk := h key
  rw [if_neg fun hopen => by simp [hr] at hopen] at hk
  generalize Dict.get? extra key = v at hk
  cases hk
  rfl

/-- With the same numbers the same members are kept. -/
theorem Keeps.get?_open (h : Keeps Eq r ms extra) (hr : r.isOpen = true) {key : String}
    (hkey : key ∉ r.fields.map (·.key)) : Dict.get? extra key = Dict.get? ms key := by
  have hk := h key
  rw [if_pos ⟨hr, hkey⟩] at hk
  generalize Dict.get? ms key = member, Dict.get? extra key = v at hk
  cases hk with
  | none => rfl
  | some hv => rw [eq_of_renumbered hv]

/-- What keeps the field: it is there if it has a default, it is not a `null` that is dropped, and
its value is verbatim. -/
def Field.VerbatimAt (f : Field) (member : Option Json) : Prop :=
  (∀ value, f.presence = .defaulted value → member ≠ none) ∧
    (f.presence.DropsNull → member ≠ some .null) ∧ ∀ j, member = some j → Verbatim f.shape j

/-- A record is verbatim if each of its fields is, and if it is open where it has other members. -/
theorem verbatim_record_iff (hms : (Dict.keys ms).Nodup) : Verbatim (.record r) (.object ms) ↔
    (∀ f ∈ r.fields, f.VerbatimAt (Dict.get? ms f.key)) ∧
      (r.isOpen = false → ∀ key ∈ Dict.keys ms, key ∈ r.fields.map (·.key)) := by
  constructor
  · intro hverbatim
    cases hverbatim with
    | record hdefault hnull hclosed hall =>
      refine ⟨fun f hf => ⟨fun value hp hnone => ?_, fun hdrops hj => ?_, fun j hj => ?_⟩, hclosed⟩
      · exact Dict.get?_eq_none_iff.mp hnone (hdefault f hf value hp)
      · exact hnull f hf hdrops (Dict.mem_of_get?_eq_some hj)
      · exact Record.shapeOf_field hf ▸ hall (f.key, j) (Dict.mem_of_get?_eq_some hj)
  · rintro ⟨hfields, hclosed⟩
    refine .record (fun f hf value hp => ?_) (fun f hf hdrops hm => ?_) hclosed fun m hm => ?_
    · by_contra hkey
      exact (hfields f hf).1 value hp (Dict.get?_eq_none_iff.mpr hkey)
    · exact (hfields f hf).2.1 hdrops ((Dict.get?_eq_some_iff hms).mpr hm)
    · obtain ⟨key, j⟩ := m
      by_cases hkey : key ∈ r.fields.map (·.key)
      · obtain ⟨f, hf, rfl⟩ := List.mem_map.mp hkey
        rw [Record.shapeOf_field hf]
        exact (hfields f hf).2.2 j ((Dict.get?_eq_some_iff hms).mpr hm)
      · rw [Record.shapeOf_of_not_mem hkey]
        exact .any

/-- Only a closed record loses a member that is no field. -/
theorem alike_other_iff (hms : (Json.object ms).KeysOnce) (hextra : Keeps Eq r ms extra)
    {key : String} (hkey : key ∉ r.fields.map (·.key)) :
    Option.Rel (Alike .any) (Dict.get? ms key)
      (Dict.get? (Slots.members r.fields slots ++ extra) key) ↔
      (r.isOpen = false → key ∉ Dict.keys ms) := by
  rw [KeysOnce, membersKeysOnce_iff] at hms
  rw [get?_append_of_not_mem hkey]
  cases hr : r.isOpen with
  | false =>
    rw [hextra.get?_closed hr, ← Dict.get?_eq_none_iff]
    cases Dict.get? ms key with
    | none => exact iff_of_true .none fun _ => rfl
    | some j => exact iff_of_false nofun fun h => nomatch h rfl
  | true =>
    refine iff_of_true ?_ nofun
    rw [hextra.get?_open hr hkey]
    cases hj : Dict.get? ms key with
    | none => exact .none
    | some j => exact .some (.plain rfl (same_self j (hms.2 _ (Dict.mem_of_get?_eq_some hj))))

/-- A record is written like the one that was read if and only if this was verbatim. -/
theorem alike_record_iff_verbatim (hms : (Json.object ms).KeysOnce)
    (hslots : Slots.Decode (fun f => f.presence.Decodes (Decodes Eq limit f.shape)) ms
      r.fields slots) (hextra : Keeps Eq r ms extra)
    (h : ∀ f ∈ r.fields, ∀ j v, Dict.get? ms f.key = some j → Decodes Eq limit f.shape j v →
      (Alike f.shape j (f.shape.toJson v) ↔ Verbatim f.shape j)) :
    Alike (.record r) (.object ms) (.object (Slots.members r.fields slots ++ extra)) ↔
      Verbatim (.record r) (.object ms) := by
  have hfield : ∀ f ∈ r.fields,
      Option.Rel (Alike f.shape) (Dict.get? ms f.key)
        (Dict.get? (Slots.members r.fields slots ++ extra) f.key) ↔
      f.VerbatimAt (Dict.get? ms f.key) := by
    intro f hf
    obtain ⟨value, hvalue, hwritten⟩ := exists_value_of_mem hslots (fields_nodup r) hf
      (hextra.get?_field (List.mem_map_of_mem hf))
    rw [hwritten]
    exact alike_field_iff f.presence hvalue (h f hf)
  have hkeys := hms
  rw [KeysOnce, membersKeysOnce_iff] at hkeys
  rw [alike_record_iff, verbatim_record_iff hkeys.1]
  constructor
  · intro hrel
    refine ⟨fun f hf => ?_, fun hr key hmem => ?_⟩
    · exact (hfield f hf).mp (Record.shapeOf_field hf ▸ hrel f.key)
    · by_contra hkey
      have hother := Record.shapeOf_of_not_mem hkey ▸ hrel key
      exact (alike_other_iff hms hextra hkey).mp hother hr hmem
  · rintro ⟨hfields, hclosed⟩ key
    by_cases hkey : key ∈ r.fields.map (·.key)
    · obtain ⟨f, hf, rfl⟩ := List.mem_map.mp hkey
      rw [Record.shapeOf_field hf]
      exact (hfield f hf).mpr (hfields f hf)
    · rw [Record.shapeOf_of_not_mem hkey]
      exact (alike_other_iff hms hextra hkey).mpr fun hr hmem => hkey (hclosed hr key hmem)

/-! ## All shapes -/

theorem alike_any {j v : Json} (hj : j.KeysOnce) (h : Decodes Eq limit .any j v) :
    Alike .any j v ↔ Verbatim .any j := by
  rw [eq_of_renumbered (decodes_any.mp h)]
  exact iff_of_true (.plain rfl (same_self j hj)) .any

/-- What is written for a value that was decoded is like the JSON value that it was decoded from if
and only if this one was verbatim. -/
theorem alike_iff_verbatim (s : Shape) {j : Json} {value : s.Carrier} (hj : j.KeysOnce)
    (h : Decodes Eq limit s j value) : Alike s j (s.toJson value) ↔ Verbatim s j := by
  induction limit generalizing s j value with
  | zero =>
    cases s with
    | any => exact alike_any hj h
    | list | dict | record => exact h.elim
    | _ => exact alike_iff_verbatim_scalar rfl h
  | succ n ih =>
    cases s with
    | any => exact alike_any hj h
    | list item =>
      obtain ⟨js, rfl, hall⟩ := h
      rw [KeysOnce, itemsKeysOnce_iff] at hj
      have hitems := (List.forall₂_and_left js value).mpr ⟨hj, hall⟩
      exact alike_list_iff (hitems.imp fun j v hv => ih item hv.1 hv.2)
    | dict entry =>
      obtain ⟨ms, rfl, hall⟩ := h
      rw [KeysOnce, membersKeysOnce_iff] at hj
      have hmembers := (List.forall₂_and_left ms value).mpr ⟨hj.2, hall⟩
      exact alike_dict_iff hj.1 (hmembers.imp fun m v hv => ⟨hv.2.1, ih entry hv.1 hv.2.2⟩)
    | record r =>
      obtain ⟨js, rfl⟩ | ⟨ms, slots, extra, rfl, rfl, hslots, hkept⟩ := h
      · -- a list is written as an object
        refine iff_of_false (fun halike => ?_) nofun
        cases halike with
        | plain hs => cases hs
      · have hclosed : r.isOpen = false → extra = [] := fun hr =>
          Dict.eq_nil_of_get? (hkept.get?_closed hr)
        rw [Shape.toJson, toJson_make r slots extra hclosed]
        have hms := hj
        rw [KeysOnce, membersKeysOnce_iff] at hms
        exact alike_record_iff_verbatim hj hslots hkept fun f _ j v hmember hv =>
          ih f.shape (hms.2 _ (Dict.mem_of_get?_eq_some hmember)) hv
    | _ => exact alike_iff_verbatim_scalar rfl h

end Document

namespace Schema

open Document

/-- The JSON value that is written for a schema is like the one that the schema was read from, at
every level, if and only if this one was verbatim. -/
theorem alike_toJson_iff {text : String} {j : Json} {s : Schema} (hj : Json.ofText? text = .ok j)
    (hs : Schema.ofText? text = .ok s) :
    Alike (.record .schema) j s.toJson ↔ Verbatim (.record .schema) j := by
  have hkeys : j.KeysOnce := ((Json.yields_readJson Json.depthLimit).of_readText hj).keysOnce
  exact alike_iff_verbatim (.record .schema) hkeys (decodes_of_ofText? hj hs)

/-- A schema of which nothing gets lost: its items have a whole number for the least one, and there
is a keyword without a place of its own. -/
def keptJson : Json := .object [
  ("items", .object [("metadata", .object [("min", .number (.integer 1))])]),
  ("format", .array [.null]), ("type", .string "array")]

/-- The text of this schema. -/
def keptText : String :=
  "\x7b\"items\":\x7b\"metadata\":\x7b\"min\":1\x7d\x7d,\"format\":[null],\"type\":\"array\"\x7d"

theorem ofText?_keptText : Json.ofText? keptText = .ok keptJson := by
  have htext : keptJson.compact = keptText := by decide +kernel
  have hkeys : keptJson.KeysOnce := by
    simp [keptJson, Json.KeysOnce, Json.MembersKeysOnce, Json.ItemsKeysOnce, Dict.keys]
  have hlegible : keptJson.Legible Json.depthLimit := ⟨by decide, List.forall_mem_nil _⟩
  rw [← htext]
  exact (Json.readText_of_reads (Json.reads_json keptJson hkeys hlegible)).1

theorem verbatim_keptJson : Verbatim (.record .schema) keptJson := by
  have hone : toFinite64 (.integer 1) = .ok ⟨false, ⟨0x3FF0000000000000, by decide⟩⟩ := by
    decide +kernel
  have hmin : Verbatim .float64 (.number (.integer 1)) := .float hone (by decide +kernel)
  have hmetadata : Verbatim (.record .metadata) (.object [("min", .number (.integer 1))]) :=
    .record (by simp) (by simp) (by decide) (List.forall_mem_singleton.mpr hmin)
  have hitems : Verbatim (.record .schema)
      (.object [("metadata", .object [("min", .number (.integer 1))])]) :=
    .record (by simp) (by simp) (absurd · (by decide)) (List.forall_mem_singleton.mpr hmetadata)
  refine .record (by simp) (by simp) (absurd · (by decide)) ?_
  simp only [List.forall_mem_cons]
  exact ⟨hitems, .any, .text, List.forall_mem_nil _⟩

/-- The schema is written with another spelling of the number and its members in another order, and
is like the one that was read. -/
theorem alike_toJson_iff_keptText : ∃ s, Json.ofText? keptText = .ok keptJson ∧
    Schema.ofText? keptText = .ok s ∧ Alike (.record .schema) keptJson s.toJson := by
  have hread : (Schema.ofText? keptText).isOk = true := by decide +kernel
  cases hs : Schema.ofText? keptText with
  | error e =>
    rw [hs] at hread
    cases hread
  | ok s =>
    have halike := (alike_toJson_iff ofText?_keptText hs).mpr verbatim_keptJson
    exact ⟨s, ofText?_keptText, rfl, halike⟩

/-- A schema with an unknown member in its metadata. -/
def droppedJson : Json :=
  .object [("type", .string "string"), ("metadata", .object [("placeholder", .string "x")])]

/-- The text of this schema. -/
def droppedText : String :=
  "\x7b\"type\":\"string\",\"metadata\":\x7b\"placeholder\":\"x\"\x7d\x7d"

theorem droppedJson_keysOnce : droppedJson.KeysOnce := by
  simp [droppedJson, Json.KeysOnce, Json.MembersKeysOnce, Dict.keys]

theorem ofText?_droppedText : Json.ofText? droppedText = .ok droppedJson := by
  have htext : droppedJson.compact = droppedText := by decide +kernel
  have hlegible : droppedJson.Legible Json.depthLimit := ⟨by decide, List.forall_mem_nil _⟩
  rw [← htext]
  exact (Json.readText_of_reads (Json.reads_json droppedJson droppedJson_keysOnce hlegible)).1

theorem not_verbatim_droppedJson : ¬Verbatim (.record .schema) droppedJson := by
  intro h
  cases h with
  | record _ _ _ hschema =>
    have hmetadata := hschema ("metadata", .object [("placeholder", .string "x")]) (by simp)
    have hshape : Record.schema.shapeOf "metadata" = .record .metadata := by decide
    rw [hshape] at hmetadata
    cases hmetadata with
    | record _ _ hclosed _ => exact absurd (hclosed rfl "placeholder" (by decide)) (by decide)

/-- The unknown member is dropped, so the schema that is written is not like the one that was
read. -/
theorem not_alike_droppedText : ∃ s, Json.ofText? droppedText = .ok droppedJson ∧
    Schema.ofText? droppedText = .ok s ∧
    s.toJson.compact = "\x7b\"type\":\"string\",\"metadata\":\x7b\x7d\x7d" ∧
    ¬Alike (.record .schema) droppedJson s.toJson := by
  have hread : (Schema.ofText? droppedText).toOption.map (·.toJson.compact) =
      some "\x7b\"type\":\"string\",\"metadata\":\x7b\x7d\x7d" := by
    decide +kernel
  obtain ⟨s, hs, hwritten⟩ := map_toOption_eq_some.mp hread
  have hdecodes := decodes_of_ofText? ofText?_droppedText hs
  have halike := alike_iff_verbatim (.record .schema) droppedJson_keysOnce hdecodes
  exact ⟨s, ofText?_droppedText, hs, hwritten, halike.not.mpr not_verbatim_droppedJson⟩

end Schema
end StepGraph
