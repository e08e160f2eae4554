import StepGraph.Document.Reader
import StepGraph.Proofs.Json.RoundTrip

/-!
# Documents read back along their shapes

`Encodes s j value` says that `j` is a form of `value` as far as the shape `s` goes: reading the
text of `j` along `s` gives `value`, wherever the text does not nest too deep and its floats are
read back. There is one lemma for each shape, so a decoder undoes an encoder as soon as the parts of
the encoded value have their forms.

* `Spelled fs ms values`: the members `ms` spell the values of the fields `fs`, in their order and
  with some fields left out.
* `encodes_record`: a record is read back from members that spell its fields, with the members that
  an open record keeps behind them.
-/

namespace StepGraph
namespace Document

open Json

/-- Reading the text of `j` along the shape gives `value`. -/
def Encodes (s : Shape) (j : Json) (value : s.Carrier) : Prop :=
  ∀ limit, j.Legible limit → Reads (readShape limit s) j value

/-- The text of a document is read along its shape, in both layouts. -/
theorem ofText?_of_encodes {s : Shape} {j : Json} {value : s.Carrier} (h : Encodes s j value)
    (hj : j.Legible depthLimit) :
    ofText? s j.compact = .ok value ∧ ofText? s j.indented = .ok value :=
  readText_of_reads (h depthLimit hj)

/-! ## The reader of each shape -/

section

variable (limit : Nat)

theorem readShape_any : readShape limit .any = readJson limit := by cases limit <;> rfl

theorem readShape_text : readShape limit .text = readString := by cases limit <;> rfl

theorem readShape_flag : readShape limit .flag = readFlag := by cases limit <;> rfl

theorem readShape_int64 : readShape limit .int64 = readNumberAs .int64 toInt64 := by
  cases limit <;> rfl

theorem readShape_float64 : readShape limit .float64 = readNumberAs .float64 toFinite64 := by
  cases limit <;> rfl

theorem readShape_contentType :
    readShape limit .contentType = readVariant limit ContentType.table := by
  cases limit <;> rfl

theorem readShape_status : readShape limit .status = readVariant limit Run.Status.table := by
  cases limit <;> rfl

theorem readShape_list (item : Shape) : readShape (limit + 1) (.list item) =
    readContainer '[' .sequence (some (listBody (readShape limit item))) :=
  rfl

theorem readShape_dict (entry : Shape) : readShape (limit + 1) (.dict entry) =
    readContainer '\x7b' .map (some (dictBody (readShape limit entry))) :=
  rfl

theorem readShape_record (r : Record) : readShape (limit + 1) (.record r) =
    readRecord r (some (limit, readShape limit)) :=
  rfl

end

/-! ## Simple values -/

theorem encodes_any {j : Json} (h : j.KeysOnce) : Encodes .any j j := by
  intro limit hj
  rw [readShape_any]
  exact reads_json j h hj

theorem encodes_text (s : String) : Encodes .text (.string s) s := by
  intro limit _
  rw [readShape_text]
  refine reads_byFirst fun l _ depth rest _ => ⟨'"', _, by rw [write, quoteChars_append], ?_⟩
  exact gives_behind (gives_string s rest)

theorem encodes_flag (b : Bool) : Encodes .flag (.bool b) b := by
  intro limit _
  rw [readShape_flag]
  refine reads_byFirst fun l _ depth rest _ => ?_
  cases b with
  | true => exact ⟨'t', _, rfl, gives_wordAfter 't' ['r', 'u', 'e'] _ rest⟩
  | false => exact ⟨'f', _, rfl, gives_wordAfter 'f' ['a', 'l', 's', 'e'] _ rest⟩

theorem reads_numberAs {α : Type} {expected : Expected} {convert : Number → Except Fault α}
    {x : Number} {value : α} (hx : ∀ f ∈ numberFloats x, f.ReadsBack)
    (h : convert x = .ok value) : Reads (readNumberAs expected convert) (.number x) value := by
  refine reads_byFirst fun l _ depth rest hr => ?_
  obtain ⟨c, tail, hc, hstart⟩ := numberChars_eq_cons x
  have hread := gives_number hx hr
  rw [hc, List.cons_append] at hread
  obtain ⟨_, hread⟩ := hread
  refine ⟨c, tail ++ rest, by rw [write, hc, List.cons_append], ?_⟩
  rw [if_pos hstart, hread]
  dsimp only
  rw [h]
  exact ⟨_, rfl⟩

theorem encodes_int64 (n : Int64) : Encodes .int64 (.number (.ofInt64 n)) n := by
  intro limit hj
  rw [readShape_int64]
  refine reads_numberAs hj.floats ?_
  have hlt : n.toInt < Number.signedLimit := n.toInt_lt
  show toInt64 (Number.ofInt64 n) = .ok n
  rw [Number.ofInt64, toInt64, if_pos hlt, Int64.ofInt_toInt]

theorem encodes_float64 (x : Finite64) : Encodes .float64 (.number (.float x)) x := by
  intro limit hj
  rw [readShape_float64]
  exact reads_numberAs hj.floats rfl

theorem reads_variant {α : Type} {limit : Nat} {table : List (String × α)} {name : String} {a : α}
    (h : Dict.get? table name = some a) : Reads (readVariant limit table) (.string name) a := by
  refine reads_byFirst fun l _ depth rest _ => ⟨'"', _, by rw [write, quoteChars_append], ?_⟩
  rw [if_pos rfl]
  refine gives_behind ?_
  obtain ⟨_, hread⟩ := gives_string name rest
  unfold readName
  rw [hread]
  dsimp only
  rw [h]
  exact ⟨_, rfl⟩

theorem encodes_contentType (c : ContentType) : Encodes .contentType (.string c.name) c := by
  intro limit _
  rw [readShape_contentType]
  exact reads_variant (by cases c <;> rfl)

theorem encodes_status (s : Run.Status) : Encodes .status (.string s.name) s := by
  intro limit _
  rw [readShape_status]
  exact reads_variant (by cases s <;> rfl)

/-! ## Lists and mappings -/

theorem encodes_list {item : Shape} {toJson : item.Carrier → Json} {values : List item.Carrier}
    (h : ∀ v ∈ values, Encodes item (toJson v) v) :
    Encodes (.list item) (.array (values.map toJson)) values := by
  intro limit hj
  obtain ⟨n, rfl, hitems⟩ := hj.items
  have hread : List.Forall₂ (Reads (readShape n item)) (values.map toJson) values :=
    List.forall₂_map_left_iff.mpr <| List.forall₂_same.mpr fun v hv =>
      h v hv n (hitems _ (List.mem_map_of_mem hv))
  rw [readShape_list]
  refine reads_byFirst fun l hl depth rest _ => ?_
  obtain ⟨tail, hw, hbody⟩ := gives_listBody hl hread
  exact ⟨'[', tail, hw, gives_behind hbody⟩

theorem encodes_dict {entry : Shape} {toJson : entry.Carrier → Json} {values : Dict entry.Carrier}
    (hnodup : (Dict.keys values).Nodup) (h : ∀ v ∈ values, Encodes entry (toJson v.2) v.2) :
    Encodes (.dict entry) (.object (values.map fun v => (v.1, toJson v.2))) values := by
  intro limit hj
  obtain ⟨n, rfl, hmembers⟩ := hj.members
  have hread : List.Forall₂ (fun m v => m.1 = v.1 ∧ Reads (readShape n entry) m.2 v.2)
      (values.map fun v => (v.1, toJson v.2)) values :=
    List.forall₂_map_left_iff.mpr <| List.forall₂_same.mpr fun v hv =>
      ⟨rfl, h v hv n (hmembers (v.1, toJson v.2) (List.mem_map_of_mem hv))⟩
  rw [readShape_dict]
  refine reads_byFirst fun l hl depth rest _ => ?_
  obtain ⟨tail, hw, hbody⟩ := gives_dictBody hl hread hnodup
  exact ⟨'\x7b', tail, hw, gives_behind hbody⟩

/-- A list of any values is read back as it is. -/
theorem encodes_array {js : List Json} (h : (Json.array js).KeysOnce) :
    Encodes (.list .any) (.array js) js := by
  rw [KeysOnce, itemsKeysOnce_iff] at h
  have hlist : Encodes (.list .any) (.array (js.map id)) js :=
    encodes_list fun j hj => encodes_any (h j hj)
  rwa [List.map_id] at hlist

/-- A mapping to any values is read back as it is. -/
theorem encodes_object {ms : List (String × Json)} (h : (Json.object ms).KeysOnce) :
    Encodes (.dict .any) (.object ms) ms := by
  rw [KeysOnce, membersKeysOnce_iff] at h
  have hmap : ms.map (fun m => (m.1, id m.2)) = ms := List.map_id ms
  have hdict : Encodes (.dict .any) (.object (ms.map fun m => (m.1, id m.2))) ms :=
    encodes_dict h.1 fun m hm => encodes_any (h.2 m hm)
  rwa [hmap] at hdict

/-! ## Fields -/

/-- Reads the value of a field inside a record. -/
abbrev readField (limit : Nat) (f : Field) : Reader f.Carrier :=
  readPresent f.presence (readShape limit f.shape)

/-- Reading the text of `j` as the value of the field gives `value`. -/
def Field.Encodes (f : Field) (j : Json) (value : f.Carrier) : Prop :=
  ∀ limit, j.Legible limit → Reads (readField limit f) j value

/-- A value that is not `null` is there. -/
theorem reads_orNull {α : Type} {r : Reader α} {j : Json} {value : α} (h : Reads r j value)
    (hj : j ≠ .null) : Reads (orNull r) j (some value) := by
  intro l hl depth blanks rest hb hr
  have hread := h l hl depth blanks rest hb hr
  obtain ⟨c, tail, hw, hspace, -, hn⟩ := write_eq_cons l depth j rest
  rw [hw] at hread ⊢
  unfold orNull
  rw [skipSpace_blank hb hspace, if_neg]
  · exact hread.map
  · rintro ⟨⟩
    exact hj (hn rfl)

/-- The members spell the values of the fields in their order. A field that may be left out has no
member where it has its value for this case. -/
inductive Spelled : (fs : List Field) → List (String × Json) → Slots fs → Prop
  | nil : Spelled [] [] ()
  | present {f : Field} {fs : List Field} {j : Json} {value : f.Carrier}
      {ms : List (String × Json)} {values : Slots fs} (head : f.Encodes j value)
      (tail : Spelled fs ms values) : Spelled (f :: fs) ((f.key, j) :: ms) (value, values)
  | absent {f : Field} {fs : List Field} {value : f.Carrier} {ms : List (String × Json)}
      {values : Slots fs} (head : f.presence.absent? = some value)
      (tail : Spelled fs ms values) : Spelled (f :: fs) ms (value, values)

namespace Spelled

variable {key : String} {s : Shape} {fs : List Field} {ms : List (String × Json)}
  {values : Slots fs}

theorem required {j : Json} {value : s.Carrier} (h : Document.Encodes s j value)
    (tail : Spelled fs ms values) :
    Spelled (⟨key, s, .required⟩ :: fs) ((key, j) :: ms) (value, values) :=
  .present (f := ⟨key, s, .required⟩) h tail

theorem defaulted {j : Json} {default value : s.Carrier} (h : Document.Encodes s j value)
    (tail : Spelled fs ms values) :
    Spelled (⟨key, s, .defaulted default⟩ :: fs) ((key, j) :: ms) (value, values) :=
  .present (f := ⟨key, s, .defaulted default⟩) h tail

/-- Without a value the field has no member, and a value that is there is not `null`. -/
theorem optional {toJson : s.Carrier → Json} {value : Option s.Carrier}
    (h : ∀ v, value = some v → Document.Encodes s (toJson v) v ∧ toJson v ≠ .null)
    (tail : Spelled fs ms values) :
    Spelled (⟨key, s, .optional⟩ :: fs) (optionalMember key toJson value ++ ms)
      (value, values) := by
  cases value with
  | none => exact .absent (f := ⟨key, s, .optional⟩) rfl tail
  | some v =>
    obtain ⟨hv, hnull⟩ := h v rfl
    exact .present (f := ⟨key, s, .optional⟩) (fun n hj => reads_orNull (hv n hj) hnull) tail

theorem omittable {toJson : s.Carrier → Json} {value : Option s.Carrier}
    (h : ∀ v, value = some v → Document.Encodes s (toJson v) v ∧ toJson v ≠ .null)
    (tail : Spelled fs ms values) :
    Spelled (⟨key, s, .omittable⟩ :: fs) (optionalMember key toJson value ++ ms)
      (value, values) := by
  cases value with
  | none => exact .absent (f := ⟨key, s, .omittable⟩) rfl tail
  | some v =>
    obtain ⟨hv, hnull⟩ := h v rfl
    exact .present (f := ⟨key, s, .omittable⟩) (fun n hj => reads_orNull (hv n hj) hnull) tail

/-- Without a value the field has no member, and `null` is a value. -/
theorem nullable {toJson : s.Carrier → Json} {value : Option s.Carrier}
    (h : ∀ v, value = some v → Document.Encodes s (toJson v) v) (tail : Spelled fs ms values) :
    Spelled (⟨key, s, .nullable⟩ :: fs) (optionalMember key toJson value ++ ms)
      (value, values) := by
  cases value with
  | none => exact .absent (f := ⟨key, s, .nullable⟩) rfl tail
  | some v => exact .present (f := ⟨key, s, .nullable⟩) (fun n hj => (h v rfl n hj).map some) tail

theorem key_mem (h : Spelled fs ms values) : ∀ m ∈ ms, m.1 ∈ fs.map (·.key) := by
  induction h with
  | nil => exact List.forall_mem_nil _
  | present head tail ih =>
    intro m hm
    rcases List.mem_cons.mp hm with rfl | hm
    · exact List.mem_cons_self ..
    · exact List.mem_cons_of_mem _ (ih m hm)
  | absent head tail ih => exact fun m hm => List.mem_cons_of_mem _ (ih m hm)

theorem key_ne (h : Spelled fs ms values) (hkey : key ∉ fs.map (·.key)) :
    ∀ m ∈ ms, key ≠ m.1 := by
  rintro m hm rfl
  exact hkey (h.key_mem m hm)

end Spelled

/-! ## Records -/

variable {limit : Nat}

/-- Reading the members fills the slots of their fields. -/
inductive Fills (limit : Nat) (fs : List Field) :
    Draft fs → List (String × Json) → Draft fs → Prop
  | nil (d : Draft fs) : Fills limit fs d [] d
  | cons {d e e' : Draft fs} {k : String} {j : Json} {ms : List (String × Json)}
      {reader : Reader (Draft fs)}
      (known : Draft.readMember? (readField limit) k fs d = some reader)
      (head : ReadsMember reader j e) (tail : Fills limit fs e ms e') :
      Fills limit fs d ((k, j) :: ms) e'

/-- Members of other fields leave a slot as it is. -/
theorem Fills.lift {f : Field} {fs : List Field} {d e : Draft fs} {ms : List (String × Json)}
    (slot : Option f.Carrier) (h : Fills limit fs d ms e) (hkey : ∀ m ∈ ms, f.key ≠ m.1) :
    Fills limit (f :: fs) (slot, d) ms (slot, e) := by
  induction h with
  | nil d => exact .nil _
  | @cons d e e' k j ms reader known head tail ih =>
    have hk : f.key ≠ k := hkey (k, j) (List.mem_cons_self ..)
    refine .cons ?_ (head.map fun d => (slot, d)) (ih fun m hm => ?_)
    · unfold Draft.readMember?
      rw [if_neg hk, known]
      rfl
    · exact hkey m (List.mem_cons_of_mem _ hm)

/-- The member of the first field fills its slot. -/
theorem Fills.first {f : Field} {fs : List Field} {j : Json} {value : f.Carrier} {d : Draft fs}
    {e : Draft (f :: fs)} {ms : List (String × Json)}
    (h : ReadsMember (afterColon (readField limit f)) j value)
    (tail : Fills limit (f :: fs) (some value, d) ms e) :
    Fills limit (f :: fs) (none, d) ((f.key, j) :: ms) e := by
  have hread : Draft.readMember? (readField limit) f.key (f :: fs) (none, d) =
      some ((afterColon (readField limit f)).map fun value => (some value, d)) := by
    unfold Draft.readMember?
    rw [if_pos rfl]
  exact .cons hread (h.map _) tail

/-- Members that spell the fields fill a draft with their values. -/
theorem Spelled.fills {fs : List Field} {ms : List (String × Json)} {values : Slots fs}
    (h : Spelled fs ms values) (hnodup : (fs.map (·.key)).Nodup)
    (hms : ∀ m ∈ ms, m.2.Legible limit) :
    ∃ d, Fills limit fs (Draft.empty fs) ms d ∧ Draft.finish fs d = .ok values := by
  induction h with
  | nil => exact ⟨(), .nil _, rfl⟩
  | @present f fs j value ms values head tail ih =>
    -- the member fills the slot of its field, and those behind it have other keys
    obtain ⟨hnew, hnodup⟩ := List.nodup_cons.mp hnodup
    obtain ⟨d, hfills, hfinish⟩ := ih hnodup fun m hm => hms m (List.mem_cons_of_mem _ hm)
    have hmember := (head limit (hms (f.key, j) (List.mem_cons_self ..))).afterColon
    refine ⟨(some value, d), .first hmember (hfills.lift (some value) (tail.key_ne hnew)), ?_⟩
    show (Draft.finish fs d).map _ = _
    rw [hfinish]
    rfl
  | @absent f fs value ms values head tail ih =>
    -- the slot stays empty, and the value for this case takes its place in the end
    obtain ⟨hnew, hnodup⟩ := List.nodup_cons.mp hnodup
    obtain ⟨d, hfills, hfinish⟩ := ih hnodup hms
    refine ⟨(none, d), hfills.lift none (tail.key_ne hnew), ?_⟩
    have hslot : (none <|> f.presence.absent?) = some value := head
    unfold Draft.finish
    rw [hslot]
    dsimp only
    rw [hfinish]
    rfl

theorem Fills.steps {r : Record} {d e : Draft r.fields} {ms : List (String × Json)}
    (h : Fills limit r.fields d ms e) (kept : Dict Json) :
    Steps (readRecordMember r limit (readField limit)) (d, kept) ms (e, kept) := by
  induction h with
  | nil d => exact .nil _
  | cons known head tail ih =>
    refine .cons ?_ ih
    unfold readRecordMember
    rw [known]
    exact head.map _

theorem readMember?_eq_none {read : (f : Field) → Reader f.Carrier} {key : String}
    {fs : List Field} (h : key ∉ fs.map (·.key)) (d : Draft fs) :
    Draft.readMember? read key fs d = none := by
  induction fs with
  | nil => rfl
  | cons f fs ih =>
    obtain ⟨slot, d⟩ := d
    rw [List.map_cons, List.mem_cons, not_or] at h
    unfold Draft.readMember?
    rw [if_neg (Ne.symm h.1), ih h.2]
    rfl

/-- What a record keeps besides its fields: nothing, unless it is open. -/
structure Kept (r : Record) (extra : List (String × Json)) : Prop where
  isOpen : extra ≠ [] → r.isOpen = true
  unknown : ∀ k ∈ Dict.keys extra, k ∉ r.fields.map (·.key)
  keysOnce : (Json.object extra).KeysOnce

theorem kept_nil (r : Record) : Kept r [] where
  isOpen := fun h => absurd rfl h
  unknown := nofun
  keysOnce := by simp [KeysOnce, MembersKeysOnce, Dict.keys]

/-- Members of an open record that are no fields are kept in their order. -/
theorem Kept.steps {r : Record} {extra : List (String × Json)} (h : Kept r extra)
    (hextra : ∀ m ∈ extra, m.2.Legible limit) (d : Draft r.fields) :
    Steps (readRecordMember r limit (readField limit)) (d, []) extra (d, extra) := by
  have hkeys := h.keysOnce
  rw [KeysOnce, membersKeysOnce_iff] at hkeys
  have hinsert : Steps _ [] extra ([] ++ extra) :=
    steps_insert (reads_members extra hkeys.2 hextra) hkeys.1
  refine hinsert.lift (fun kept => (d, kept)) fun kept m hm => ?_
  have hopen : r.isOpen = true := h.isOpen (List.ne_nil_of_mem hm)
  have hunknown : m.1 ∉ r.fields.map (·.key) := h.unknown m.1 (List.mem_map.mpr ⟨m, hm, rfl⟩)
  unfold readRecordMember
  rw [readMember?_eq_none hunknown, Reader.map_map]
  dsimp only
  rw [if_pos hopen]

/-- The keys of the fields of a record are distinct. -/
theorem fields_nodup (r : Record) : (r.fields.map (·.key)).Nodup := by
  cases r <;> decide

/-- A record is read back from the members that spell its fields and those that it keeps. -/
theorem encodes_record {r : Record} {ms extra : List (String × Json)} {slots : Slots r.fields}
    (h : Spelled r.fields ms slots) (hextra : Kept r extra) :
    Encodes (.record r) (.object (ms ++ extra)) (r.make slots extra) := by
  intro limit hj
  obtain ⟨n, rfl, hmembers⟩ := hj.members
  obtain ⟨d, hfills, hfinish⟩ := h.fills (fields_nodup r) fun m hm =>
    hmembers m (List.mem_append_left _ hm)
  have hkept := hextra.steps (fun m hm => hmembers m (List.mem_append_right _ hm)) d
  have hmake : (Draft.finish r.fields d).map (fun slots => r.make slots extra) =
      .ok (r.make slots extra) := by
    rw [hfinish]
    rfl
  rw [readShape_record]
  refine reads_byFirst fun l hl depth rest _ => ?_
  have hbody : ∃ tail, (Json.object (ms ++ extra)).write l depth rest = '\x7b' :: tail ∧
      Gives (readMembers r n (readField n) tail) (r.make slots extra) rest :=
    gives_objectBody hl ((hfills.steps []).append hkept) hmake
  obtain ⟨tail, hw, hbody⟩ := hbody
  refine ⟨'\x7b', tail, hw, ?_⟩
  rw [if_pos (.inl rfl)]
  exact gives_behind hbody

/-- A closed record has the members of its fields and no others. -/
theorem encodes_closed {r : Record} {ms : List (String × Json)} {slots : Slots r.fields}
    (h : Spelled r.fields ms slots) : Encodes (.record r) (.object ms) (r.make slots []) := by
  have hrecord := encodes_record h (kept_nil r)
  rwa [List.append_nil] at hrecord

end Document
end StepGraph
