import StepGraph.Proofs.Document.Form
import StepGraph.Proofs.Json.Yield
import StepGraph.Proofs.Result

/-!
# What documents hold

`Held limit s value` says what is known of a value that was read along the shape `s` from a text of
at most `limit` containers inside one another: no mapping has a key twice, no record keeps a member
that is one of its fields, `null` is no value of a field that takes it for none, and what may be any
JSON value is regular.

* `held_default`: the defaults are such values themselves.
* `yields_readShape`: whatever is read is held, if the limit leaves room for the containers that
  stand for fields that are left out (`Shape.reserve`).
-/

namespace StepGraph
namespace Document

open Json

/-! ## Values of fields -/

/-- What holds of the value of a field if `P` holds of the values that stand in the text. -/
def Presence.Holds {α : Type} (toJson : α → Json) (P : α → Prop) :
    (p : Presence α) → p.Carrier → Prop
  | required, a | defaulted _, a => P a
  | optional, a | omittable, a => ∀ v, a = some v → P v ∧ toJson v ≠ .null
  | nullable, a => ∀ v, a = some v → P v

/-- `P` holds of the values of all fields. -/
def Slots.Hold (P : (f : Field) → f.Carrier → Prop) : (fs : List Field) → Slots fs → Prop
  | [], () => True
  | f :: fs, (value, values) => P f value ∧ Hold P fs values

/-- What a record keeps besides its fields, with values at most `limit` containers deep. -/
structure KeptWithin (limit : Nat) (r : Record) (extra : Dict Json) : Prop
    extends Kept r extra where
  depth_le : ∀ m ∈ extra, m.2.depth ≤ limit

/-- No container and no value of unknown kind. -/
def Shape.isScalar : Shape → Bool
  | any | list _ | dict _ | record _ => false
  | _ => true

/-- The value may come from a text of at most `limit` containers inside one another. -/
def Held : (limit : Nat) → (s : Shape) → s.Carrier → Prop
  | limit, .any, j => Regular limit j
  | limit + 1, .list item, values => ∀ v ∈ values, Held limit item v
  | limit + 1, .dict entry, values =>
    (Dict.keys values).Nodup ∧ ∀ v ∈ values, Held limit entry v.2
  | limit + 1, .record r, value => ∃ slots extra, value = r.make slots extra ∧
    Slots.Hold (fun f => f.presence.Holds f.shape.toJson (Held limit f.shape)) r.fields slots ∧
    KeptWithin limit r extra
  | 0, .list _, _ | 0, .dict _, _ | 0, .record _, _ => False
  | _, .text, _ | _, .flag, _ | _, .int64, _ | _, .float64, _ | _, .contentType, _
  | _, .status, _ => True

/-- What `Held` says of the value of a field. -/
abbrev Field.Held (limit : Nat) (f : Field) : f.Carrier → Prop :=
  f.presence.Holds f.shape.toJson (Document.Held limit f.shape)

/-! ## Values that are read -/

section

variable {limit : Nat}

/-- Only a place for any value holds one whose JSON form is `null`. -/
theorem toJson_ne_null {s : Shape} (hs : s ≠ .any) (value : s.Carrier) :
    s.toJson value ≠ .null := by
  cases s with
  | any => exact absurd rfl hs
  | record r =>
    cases r with
    | schema => exact Schema.toJson_ne_null value
    | _ => exact nofun
  | _ => exact nofun

theorem yields_readContainer {α : Type} {P : α → Prop} {opening : Char} {expected : Expected}
    {body : Option (Reader α)} (h : ∀ r, body = some r → Yields r P) :
    Yields (readContainer opening expected body) P := by
  refine yields_byFirst fun c rest => ?_
  split
  · split
    · exact ensures_error _
    · rename_i r
      exact ensures_behind c (h r rfl rest)
  · exact ensures_error _

/-- `null` is no value, and what is read where the text says something else is not `null`. -/
theorem yields_orNull {α : Type} {toJson : α → Json} {P : α → Prop} {r : Reader α}
    (h : ∀ cs, Ensures (r cs) fun v =>
      P v ∧ (toJson v = .null → (skipSpace cs).head? = some 'n')) :
    Yields (orNull r) fun a => ∀ v, a = some v → P v ∧ toJson v ≠ .null := by
  intro cs
  unfold orNull
  split
  · exact ensures_byFirst fun c rest _ => ensures_wordAfter nofun
  · rename_i hn
    refine (h cs).map fun v hv w hw => ?_
    cases hw
    exact ⟨hv.1, fun hnull => hn (hv.2 hnull)⟩

theorem yields_readPresent {α : Type} {toJson : α → Json} {P : α → Prop} {r : Reader α}
    (p : Presence α) (h : ∀ cs, Ensures (r cs) fun v =>
      P v ∧ (toJson v = .null → (skipSpace cs).head? = some 'n')) :
    Yields (readPresent p r) (p.Holds toJson P) := by
  have hr : Yields r P := fun cs => (h cs).imp fun _ hv => hv.1
  cases p with
  | required | defaulted => exact hr
  | optional | omittable => exact yields_orNull h
  | nullable =>
    refine hr.map fun v hv w hw => ?_
    cases hw
    exact hv

variable {P : (f : Field) → f.Carrier → Prop} {read : (f : Field) → Reader f.Carrier}

/-- `P` holds of the values that have been read. -/
def Draft.Hold (P : (f : Field) → f.Carrier → Prop) : (fs : List Field) → Draft fs → Prop
  | [], () => True
  | f :: fs, (slot, rest) => (∀ value, slot = some value → P f value) ∧ Hold P fs rest

theorem Draft.hold_empty (fs : List Field) : Draft.Hold P fs (Draft.empty fs) := by
  induction fs with
  | nil => trivial
  | cons f fs ih => exact ⟨nofun, ih⟩

/-- The value of a member fills the slot of its field, and no other slot changes. -/
theorem Draft.yields_readMember {fs : List Field} (hread : ∀ f ∈ fs, Yields (read f) (P f))
    {key : String} {d : Draft fs} (hd : Draft.Hold P fs d) {reader : Reader (Draft fs)}
    (h : Draft.readMember? read key fs d = some reader) : Yields reader (Draft.Hold P fs) := by
  induction fs with
  | nil => cases h
  | cons f fs ih =>
    obtain ⟨slot, rest⟩ := d
    obtain ⟨hslot, hrest⟩ := hd
    obtain ⟨hhead, htail⟩ := List.forall_mem_cons.mp hread
    unfold Draft.readMember? at h
    split at h
    · split at h
      · cases h
        exact fun _ => ensures_error _
      · cases h
        refine (yields_afterColon hhead).map fun value hvalue => ⟨?_, hrest⟩
        rintro _ ⟨⟩
        exact hvalue
    · obtain ⟨r, hr, rfl⟩ := Option.map_eq_some_iff.mp h
      exact (ih htail hrest hr).map fun _ h => ⟨hslot, h⟩

/-- A draft without empty slots for required fields gives values for all fields. -/
theorem Draft.hold_finish {fs : List Field}
    (habsent : ∀ f ∈ fs, ∀ value, f.presence.absent? = some value → P f value) {d : Draft fs}
    {slots : Slots fs} (hd : Draft.Hold P fs d) (h : Draft.finish fs d = .ok slots) :
    Slots.Hold P fs slots := by
  induction fs with
  | nil => trivial
  | cons f fs ih =>
    obtain ⟨slot, rest⟩ := d
    obtain ⟨hslot, hrest⟩ := hd
    obtain ⟨hhead, htail⟩ := List.forall_mem_cons.mp habsent
    unfold Draft.finish at h
    split at h
    · cases h
    · rename_i value hvalue
      obtain ⟨values, hvalues, rfl⟩ := map_eq_ok.mp h
      refine ⟨?_, ih htail hrest hvalues⟩
      cases slot with
      | some v => exact hslot _ hvalue
      | none => exact hhead _ hvalue

theorem absent?_of_absentFromList? {α : Type} {p : Presence α} {value : p.Carrier}
    (h : p.absentFromList? = some value) : p.absent? = some value := by
  cases p with
  | required | optional => cases h
  | defaulted | omittable | nullable => exact h

/-- A list gives the fields their values one after the other. -/
theorem yields_readElements (r : Record) (count : Nat) (first : Bool) {fs : List Field}
    (hread : ∀ f ∈ fs, Yields (read f) (P f))
    (habsent : ∀ f ∈ fs, ∀ value, f.presence.absent? = some value → P f value) :
    Yields (readElements r read count first fs) (Slots.Hold P fs) := by
  induction fs generalizing count first with
  | nil => exact fun _ => ensures_true _
  | cons f fs ih =>
    obtain ⟨hvalue, hvalues⟩ := List.forall_mem_cons.mp hread
    obtain ⟨hdefault, hdefaults⟩ := List.forall_mem_cons.mp habsent
    intro cs p hp
    unfold readElements at hp
    split at hp
    · cases hp
    · split at hp
      · cases hp
      · rename_i value habsent
        have hrest : Ensures ((readElements r read (count + 1) first fs).map
            (fun vs => (value, vs)) cs) (Slots.Hold P (f :: fs)) :=
          (ih (count + 1) first hvalues hdefaults cs).map fun _ hvs =>
            ⟨hdefault value (absent?_of_absentFromList? habsent), hvs⟩
        exact hrest p hp
    · rename_i start _
      split at hp
      · cases hp
      · rename_i q hq
        split at hp
        · cases hp
        · rename_i vs hvs
          cases hp
          exact ⟨hvalue start q hq, ih (count + 1) false hvalues hdefaults q.rest vs hvs⟩

theorem not_mem_of_readMember?_eq_none {key : String} {fs : List Field} {d : Draft fs}
    (h : Draft.readMember? read key fs d = none) : key ∉ fs.map (·.key) := by
  induction fs with
  | nil => exact List.not_mem_nil
  | cons f fs ih =>
    obtain ⟨slot, rest⟩ := d
    unfold Draft.readMember? at h
    split at h
    · split at h <;> cases h
    · rename_i hkey
      rw [List.map_cons, List.mem_cons, not_or]
      exact ⟨Ne.symm hkey, ih (Option.map_eq_none_iff.mp h)⟩

theorem keptWithin_nil (limit : Nat) (r : Record) : KeptWithin limit r [] where
  toKept := kept_nil r
  depth_le := nofun

theorem KeptWithin.insert {r : Record} {extra : Dict Json} {key : String} {value : Json}
    (h : KeptWithin limit r extra) (hopen : r.isOpen = true) (hkey : key ∉ r.fields.map (·.key))
    (hvalue : Regular limit value) : KeptWithin limit r (Dict.insert extra key value) where
  isOpen _ := hopen
  unknown k hk := by
    rcases Dict.mem_keys_insert.mp hk with rfl | hk
    · exact hkey
    · exact h.unknown k hk
  keysOnce := by
    have hextra := h.keysOnce
    rw [KeysOnce, membersKeysOnce_iff] at hextra ⊢
    exact ⟨Dict.keys_insert_nodup hextra.1 key value,
      Dict.forall_mem_insert hextra.2 hvalue.keysOnce⟩
  depth_le :=
    Dict.forall_mem_insert (P := fun j : Json => j.depth ≤ limit) h.depth_le hvalue.depth_le

/-- A member fills the slot of its field, or else an open record keeps it. -/
theorem yields_readRecordMember {r : Record} (hread : ∀ f ∈ r.fields, Yields (read f) (P f))
    (state : Draft r.fields × Dict Json) (key : String)
    (h : Draft.Hold P r.fields state.1 ∧ KeptWithin limit r state.2) :
    Yields (readRecordMember r limit read state key) fun state =>
      Draft.Hold P r.fields state.1 ∧ KeptWithin limit r state.2 := by
  obtain ⟨hdraft, hkept⟩ := h
  unfold readRecordMember
  split
  · rename_i reader hreader
    exact (Draft.yields_readMember hread hdraft hreader).map fun _ hd => ⟨hd, hkept⟩
  · rename_i hnone
    have hkey := not_mem_of_readMember?_eq_none hnone
    split
    · rename_i hopen
      exact (yields_afterColon (yields_readJson limit)).map fun value hvalue =>
        ⟨hdraft, hkept.insert hopen hkey hvalue⟩
    · have hskip : Yields (afterColon skipValue) fun _ => True := fun _ => ensures_true _
      exact hskip.map fun _ _ => ⟨hdraft, hkept⟩

theorem yields_readMembers {r : Record} (hread : ∀ f ∈ r.fields, Yields (read f) (P f))
    (habsent : ∀ f ∈ r.fields, ∀ value, f.presence.absent? = some value → P f value) :
    Yields (readMembers r limit read) fun value => ∃ slots extra, value = r.make slots extra ∧
      Slots.Hold P r.fields slots ∧ KeptWithin limit r extra := by
  refine yields_objectBody (yields_readRecordMember hread) ?_
    ⟨Draft.hold_empty r.fields, keptWithin_nil limit r⟩
  intro state value ⟨hdraft, hkept⟩ hfinish
  obtain ⟨slots, hslots, rfl⟩ := map_eq_ok.mp hfinish
  exact ⟨slots, state.2, rfl, Draft.hold_finish habsent hdraft hslots, hkept⟩

end

/-! ## What is read along a shape -/

/-- How many containers the JSON form of a record may have where the record itself nests less:
fields that are left out stand for lists and objects. -/
def Record.reserve : Record → Nat
  | stepState => 2
  | state => 4
  | response => 5
  | _ => 0

/-- How many containers the JSON form of a value may have where its text nests less. -/
def Shape.reserve : Shape → Nat
  | list item => if item.reserve = 0 then 0 else item.reserve + 1
  | dict entry => if entry.reserve = 0 then 0 else entry.reserve + 1
  | record r => r.reserve
  | _ => 0

theorem reserve_inner {n k : Nat} (h : (if k = 0 then 0 else k + 1) ≤ n + 1) : k ≤ n := by
  split at h <;> omega

/-- There is room for the fields of a record inside of it. -/
theorem reserve_field (r : Record) : ∀ f ∈ r.fields, f.shape.reserve ≤ r.reserve - 1 := by
  cases r <;> decide

theorem held_scalar {limit : Nat} {s : Shape} (hs : s.isScalar = true) (value : s.Carrier) :
    Held limit s value := by
  cases s with
  | any | list | dict | record => cases hs
  | _ => cases limit <;> trivial

theorem held_any {limit : Nat} {j : Json} : Held limit .any j ↔ Regular limit j := by
  cases limit <;> exact Iff.rfl

/-- The values of fields that are left out could be read themselves, if there is room for them. -/
theorem held_default {limit : Nat} (r : Record) (h : r.reserve ≤ limit + 1) :
    ∀ f ∈ r.fields, ∀ value, f.presence = .defaulted value → Held limit f.shape value := by
  have htext : Held limit .text "" := held_scalar rfl _
  have hflag : Held limit .flag false := held_scalar rfl _
  have hnull : Held limit .any .null := held_any.mpr (regular_of_depth_eq_zero trivial rfl)
  cases r with
  | response | state | stepState =>
    obtain ⟨n, rfl⟩ : ∃ n, limit = n + 1 := ⟨limit - 1, by simp only [Record.reserve] at h; omega⟩
    simp [Held, Dict.keys]
  | _ => simp [htext, hflag, hnull]

/-- A field that is left out has a value that could be read. -/
theorem held_absent {limit : Nat} (r : Record) (h : r.reserve ≤ limit + 1) :
    ∀ f ∈ r.fields, ∀ value, f.presence.absent? = some value → f.Held limit value := by
  intro f hf value hvalue
  have hdefault := held_default r h f hf
  obtain ⟨key, shape, presence⟩ := f
  cases presence with
  | required => cases hvalue
  | defaulted default =>
    cases hvalue
    exact hdefault default rfl
  | optional | omittable | nullable =>
    cases hvalue
    exact nofun

/-- What any JSON value gives away about its text besides being held. -/
theorem ensures_readShape {limit : Nat} (s : Shape) (h : Yields (readShape limit s) (Held limit s))
    (cs : List Char) : Ensures (readShape limit s cs) fun value =>
      Held limit s value ∧ (s.toJson value = .null → (skipSpace cs).head? = some 'n') := by
  by_cases hs : s = .any
  · subst hs
    rw [readShape_any]
    exact (ensures_readJson limit cs).imp fun j hj => ⟨held_any.mpr hj.1, hj.2⟩
  · exact (h cs).imp fun value hvalue => ⟨hvalue, fun hn => absurd hn (toJson_ne_null hs value)⟩

theorem yields_readField {limit : Nat} (f : Field)
    (h : Yields (readShape limit f.shape) (Held limit f.shape)) :
    Yields (readField limit f) (f.Held limit) :=
  yields_readPresent f.presence (ensures_readShape f.shape h)

theorem yields_readRecord {limit : Nat} {r : Record} (hr : r.reserve ≤ limit + 1)
    (h : ∀ f ∈ r.fields, Yields (readShape limit f.shape) (Held limit f.shape)) :
    Yields (readRecord r (some (limit, readShape limit))) (Held (limit + 1) (.record r)) := by
  have hread : ∀ f ∈ r.fields, Yields (readField limit f) (f.Held limit) :=
    fun f hf => yields_readField f (h f hf)
  refine yields_byFirst fun c rest => ?_
  split
  · dsimp only
    split
    · have helements := yields_readElements r 0 true hread (held_absent r hr)
      refine ensures_behind c ((helements rest).map fun slots hslots => ?_)
      exact ⟨slots, [], rfl, hslots, keptWithin_nil limit r⟩
    · exact ensures_behind c (yields_readMembers hread (held_absent r hr) rest)
  · exact ensures_error _

theorem yields_readRecord_none {r : Record} {P : r.Carrier → Prop} :
    Yields (readRecord r none) P := by
  refine yields_byFirst fun c rest => ?_
  split <;> exact ensures_error _

/-- What is read along a shape is held, if there is room for the fields that are left out. -/
theorem yields_readShape {limit : Nat} (s : Shape) (h : s.reserve ≤ limit) :
    Yields (readShape limit s) (Held limit s) := by
  induction limit generalizing s with
  | zero =>
    cases s with
    | any => exact yields_readJson 0
    | list item | dict entry => exact yields_readContainer nofun
    | record r => exact yields_readRecord_none
    | _ => exact fun _ _ _ => held_scalar rfl _
  | succ n ih =>
    cases s with
    | any => exact yields_readJson (n + 1)
    | list item =>
      refine yields_readContainer fun r hr => ?_
      cases hr
      exact yields_listBody (ih item (reserve_inner h))
    | dict entry =>
      refine yields_readContainer fun r hr => ?_
      cases hr
      exact yields_dictBody (ih entry (reserve_inner h))
    | record r =>
      refine yields_readRecord h fun f hf => ih f.shape ?_
      exact Nat.le_trans (reserve_field r f hf) (Nat.sub_le_of_le_add h)
    | _ => exact fun _ _ _ => held_scalar rfl _

end Document
end StepGraph
