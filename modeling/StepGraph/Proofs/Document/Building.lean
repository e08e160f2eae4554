import StepGraph.Proofs.Document.NormalForm
import StepGraph.Proofs.Document.SchemaEquality
import StepGraph.Proofs.Document.Verbatim
import StepGraph.Proofs.Json.Written

/-!
# Which schemas survive their text

A schema that the builder methods have made (`Schema.Built`) is written and read again. What comes
back equals it if and only if it is unambiguous (no default value `null`, no further keyword with
the name of a keyword that has a place of its own) and its floats are read back
(`ofText?_built_iff`).

* `unambiguous_of_same`: only an unambiguous schema can equal one that was read.
* `readsBack_of_same`: only floats that are read back can equal those that were read.
-/

namespace StepGraph

namespace Schema

/-! ## What the builder methods make -/

/-- The schema is made by the builder methods. The values that they are given are mappings where
they are objects: every key comes once. -/
inductive Built : Schema → Prop
  | default : Built {}
  | ofType (kind : String) : Built (ofType kind)
  | array {items : Schema} (h : Built items) : Built (array items)
  | withDescription {s : Schema} (h : Built s) (text : String) : Built (s.withDescription text)
  | withDefault {s : Schema} (h : Built s) (value : Json) (hvalue : value.KeysOnce) :
      Built (s.withDefault value)
  | withOrder {s : Schema} (h : Built s) (order : Int64) : Built (s.withOrder order)
  | withMetadata {s : Schema} (h : Built s) (metadata : Metadata) :
      Built (s.withMetadata metadata)
  | withContentType {s : Schema} (h : Built s) (contentType : ContentType) :
      Built (s.withContentType contentType)
  | withKeyword {s : Schema} (h : Built s) (keyword : String) (value : Json)
      (hvalue : value.KeysOnce) : Built (s.withKeyword keyword value)

theorem ofType_keysOnce (kind : String) : (ofType kind).KeysOnce :=
  keysOnce_iff.mpr ⟨nofun, nofun, nofun, Document.kept_nil .schema |>.keysOnce⟩

theorem Built.keysOnce {s : Schema} (h : Built s) : s.KeysOnce := by
  induction h with
  | default => exact ofType_keysOnce ""
  | ofType kind => exact ofType_keysOnce kind
  | array h ih =>
    refine keysOnce_iff.mpr ⟨nofun, nofun, ?_, (keysOnce_iff.mp (ofType_keysOnce "array")).2.2.2⟩
    rintro _ ⟨⟩
    exact ih
  | withDescription _ _ ih | withOrder _ _ ih | withMetadata _ _ ih | withContentType _ _ ih =>
    obtain ⟨hdefault, hallowed, hitems, hextra⟩ := keysOnce_iff.mp ih
    exact keysOnce_iff.mpr ⟨hdefault, hallowed, hitems, hextra⟩
  | withDefault _ _ hvalue ih =>
    obtain ⟨-, hallowed, hitems, hextra⟩ := keysOnce_iff.mp ih
    refine keysOnce_iff.mpr ⟨?_, hallowed, hitems, hextra⟩
    rintro _ ⟨⟩
    exact hvalue
  | withKeyword _ keyword _ hvalue ih =>
    obtain ⟨hdefault, hallowed, hitems, hextra⟩ := keysOnce_iff.mp ih
    refine keysOnce_iff.mpr ⟨hdefault, hallowed, hitems, ?_⟩
    rw [Json.KeysOnce, Json.membersKeysOnce_iff] at hextra ⊢
    exact ⟨Dict.keys_insert_nodup hextra.1 keyword _, Dict.forall_mem_insert hextra.2 hvalue⟩

/-! ## Only unambiguous schemas are read -/

/-- Only an unambiguous schema can equal one that was read. -/
theorem unambiguous_of_same : {limit : Nat} → (s : Schema) → {t : Schema} →
    Document.Held limit (.record .schema) t → s.same t = true → s.Unambiguous
  | 0, _, _, hheld, _ => hheld.elim
  | limit + 1, ⟨kind, description, default, allowed, items, order, metadata, extra⟩, _, hheld,
      hsame => by
    obtain ⟨⟨_, _, default', _, items', _, _, ⟨⟩⟩, extra', rfl, hslots, hkept⟩ := hheld
    obtain ⟨-, -, hdefault, -, hitems, -, -, -⟩ := hslots
    obtain ⟨-, -, hsameDefault, -, hsameItems, -, -, hsameExtra⟩ := same_iff.mp hsame
    have hdefaultNull : default ≠ some .null := by
      rintro rfl
      obtain ⟨v, hv, hnull⟩ := sameOption_some_iff.mp hsameDefault
      exact (hdefault v hv).2 (Json.eq_null_of_same hnull)
    have hunknown : ∀ k ∈ Dict.keys extra, k ∉ placed := by
      intro k hk
      obtain ⟨m, hm, rfl⟩ := List.mem_map.mp hk
      obtain ⟨w, hw, -⟩ := (Dict.sameBy_iff.mp hsameExtra).2 m hm
      exact hkept.unknown m.1 (Dict.mem_keys_iff.mpr ⟨w, hw⟩)
    have hitemsUnambiguous : ∀ i, items = some i → i.Unambiguous := by
      match items, hsameItems with
      | none, _ => exact nofun
      | some i, hsameItems =>
        obtain ⟨i', hi', hsame⟩ := sameOption_some_iff.mp hsameItems
        rintro _ ⟨⟩
        exact unambiguous_of_same i (hitems i' hi').1 hsame
    exact unambiguous_iff.mpr ⟨hdefaultNull, hunknown, hitemsUnambiguous⟩

end Schema

/-! ## The keys of what is written -/

namespace Document

open Json

/-- The members of fields come in the order of the fields. -/
theorem keys_members_sublist {fs : List Field} (slots : Slots fs) :
    (Dict.keys (Slots.members fs slots)).Sublist (fs.map (·.key)) := by
  induction fs with
  | nil => exact .slnil
  | cons f fs ih =>
    obtain ⟨value, values⟩ := slots
    have hfirst : (Dict.keys (f.presence.members f.key f.shape.toJson value)).Sublist [f.key] := by
      obtain ⟨key, shape, presence⟩ := f
      cases presence with
      | required | defaulted => exact .refl _
      | optional | omittable | nullable =>
        cases value <;> simp [Presence.members, optionalMember, Dict.keys]
    rw [Slots.members, Dict.keys, List.map_append]
    exact hfirst.append (ih values)

/-- The members of a record have every key once. -/
theorem keysOnce_record {r : Record} {slots : Slots r.fields} {extra : Dict Json}
    (hextra : Kept r extra) (h : ∀ m ∈ Slots.members r.fields slots, m.2.KeysOnce) :
    (Json.object (Slots.members r.fields slots ++ extra)).KeysOnce := by
  have hkept := hextra.keysOnce
  have hmembers := keys_members_sublist slots
  rw [KeysOnce, membersKeysOnce_iff] at hkept ⊢
  refine ⟨?_, List.forall_mem_append.mpr ⟨h, hkept.2⟩⟩
  rw [Dict.keys, List.map_append, List.nodup_append]
  refine ⟨hmembers.nodup (fields_nodup r), hkept.1, ?_⟩
  rintro key hkey _ hunknown rfl
  exact hextra.unknown key hunknown (hmembers.subset hkey)

theorem keysOnce_strings (texts : List String) : (Json.array (texts.map .string)).KeysOnce := by
  rw [KeysOnce, itemsKeysOnce_iff, List.forall_mem_map]
  exact fun _ _ => trivial

theorem keysOnce_choices (choices : List Choice) :
    (Json.array (choices.map Choice.toJson)).KeysOnce := by
  rw [KeysOnce, itemsKeysOnce_iff, List.forall_mem_map]
  intro c _
  simp [Choice.toJson, KeysOnce, MembersKeysOnce, Dict.keys]

theorem keysOnce_metadata (m : Metadata) : m.toJson.KeysOnce := by
  let slots : Slots Record.metadata.fields := (m.contentType, m.min, m.max, m.acceptedFileTypes,
    m.advanced, m.title, m.description, m.choices, m.hidden, m.suggestions, ())
  have hform : m.toJson = .object (Slots.members Record.metadata.fields slots ++ []) :=
    toJson_make .metadata slots [] fun _ => rfl
  rw [hform]
  refine keysOnce_record (kept_nil .metadata) ?_
  simp only [slots, Slots.members, Presence.members, List.forall_mem_append]
  refine ⟨?_, ?_, ?_, ?fileTypes, ?_, ?_, ?_, ?choices, ?_, ?suggestions, List.forall_mem_nil _⟩
  case fileTypes => exact forall_mem_optionalMember fun texts _ => keysOnce_strings texts
  case choices => exact forall_mem_optionalMember fun choices _ => keysOnce_choices choices
  case suggestions =>
    refine forall_mem_optionalMember fun s _ => ?_
    show s.toJson.KeysOnce
    simp [SuggestionChain.toJson, KeysOnce, MembersKeysOnce, Dict.keys]
  all_goals exact forall_mem_optionalMember fun _ _ => trivial

end Document

namespace Schema

/-- An unambiguous schema is written with every key once. -/
theorem keysOnce_toJson : (s : Schema) → s.KeysOnce → s.Unambiguous → s.toJson.KeysOnce
  | ⟨kind, description, default, allowed, items, order, metadata, extra⟩, hkeys, h => by
    obtain ⟨hdefault, hallowed, hitems, hextra⟩ := keysOnce_iff.mp hkeys
    obtain ⟨-, hunknown, hunambiguous⟩ := unambiguous_iff.mp h
    let slots : Document.Slots Document.Record.schema.fields :=
      (kind, description, default, allowed, items, order, metadata, ())
    have hform : (⟨kind, description, default, allowed, items, order, metadata, extra⟩ :
        Schema).toJson = .object (Document.Slots.members Document.Record.schema.fields slots ++
          extra) := Document.toJson_make .schema slots extra (absurd · (by decide))
    have hitem : ∀ i, items = some i → i.toJson.KeysOnce := by
      match items, hitems, hunambiguous with
      | none, _, _ => exact nofun
      | some i, hitems, hunambiguous =>
        rintro _ ⟨⟩
        exact keysOnce_toJson i (hitems i rfl) (hunambiguous i rfl)
    rw [hform]
    refine Document.keysOnce_record ⟨fun _ => rfl, hunknown, hextra⟩ ?_
    simp only [slots, Document.Slots.members, Document.Presence.members, List.forall_mem_append]
    refine ⟨?_, ?_, ?default, ?allowed, ?items, ?_, ?metadata, List.forall_mem_nil _⟩
    case default => exact Document.forall_mem_optionalMember hdefault
    case allowed =>
      rw [Document.toJson_list_any]
      exact Document.forall_mem_optionalMember hallowed
    case items => exact Document.forall_mem_optionalMember hitem
    case metadata =>
      exact Document.forall_mem_optionalMember fun m _ => Document.keysOnce_metadata m
    all_goals exact Document.forall_mem_optionalMember fun _ _ => trivial

end Schema

/-! ## Only floats that are read back -/

namespace Document

open Json

variable {limit : Nat}

/-- The value of a field that equals what was decoded from its member. -/
theorem exists_decoded_of_same {α : Type} {D : Json → α → Prop} {toJson : α → Json}
    {same : α → α → Bool} {a b : Option α}
    (h : Presence.Decodes D .optional (a.map toJson) b)
    (hsame : sameOption same a b = true) (hnull : ∀ v, a = some v → toJson v ≠ .null) :
    ∀ v, a = some v → ∃ w, D (toJson v) w ∧ same v w = true := by
  rintro v rfl
  obtain ⟨w, rfl, hvw⟩ := sameOption_some_iff.mp hsame
  obtain ⟨hn, -⟩ | ⟨-, _, ⟨⟩, hw⟩ := h
  · exact absurd hn (hnull v rfl)
  · exact ⟨w, hw, hvw⟩

theorem readsBack_of_same_float {x y : Finite64}
    (h : Decodes Rereads limit .float64 (.number (.float x)) y) (hsame : x.sameValue y = true) :
    x.ReadsBack := by
  rw [Decodes] at h
  obtain ⟨_, z, ⟨⟩, hz, hy⟩ := h
  obtain ⟨z, rfl⟩ := hz.eq_float
  obtain rfl : z = y := Except.ok.inj hy
  exact readsBack_of_rereads hz hsame

theorem readsBack_of_same_list {js vs : List Json} (hkeys : (Json.array js).KeysOnce)
    (h : Decodes Rereads limit (.list .any) (.array js) vs) (hsame : sameItems js vs = true) :
    ∀ x ∈ (Json.array js).floats, x.ReadsBack := by
  cases limit with
  | zero => exact h.elim
  | succ n =>
    obtain ⟨_, ⟨⟩, h⟩ := h
    rw [KeysOnce, itemsKeysOnce_iff] at hkeys
    exact items_readBack_of_same js hkeys
      (renumberedItems_iff.mpr (h.imp fun _ _ => decodes_any.mp)) hsame

/-- What metadata are written with under the keys of the bounds. -/
theorem get?_bounds {m : Metadata} {ms : Dict Json} (h : m.toJson = .object ms) :
    Dict.get? ms "min" = m.min.map (.number <| .float ·) ∧
      Dict.get? ms "max" = m.max.map (.number <| .float ·) := by
  obtain rfl := Json.object.inj h
  simp [Dict.get?_append, get?_optionalMember]

theorem floats_of_optionalMember {α : Type} {P : Finite64 → Prop} {key : String}
    {toJson : α → Json} {value : Option α}
    (h : ∀ v, value = some v → ∀ x ∈ (toJson v).floats, P x) :
    ∀ m ∈ optionalMember key toJson value, ∀ x ∈ m.2.floats, P x :=
  forall_mem_optionalMember (P := fun j => ∀ x ∈ j.floats, P x) h

/-- Only the bounds of metadata are floats. -/
theorem floats_of_metadata {m : Metadata} {P : Finite64 → Prop} (hmin : ∀ x, m.min = some x → P x)
    (hmax : ∀ x, m.max = some x → P x) : ∀ x ∈ m.toJson.floats, P x := by
  rw [Metadata.toJson, floats, forall_mem_membersFloats_iff]
  simp only [List.forall_mem_append, and_assoc]
  refine ⟨?_, ?min, ?max, ?fileTypes, ?_, ?_, ?_, ?choices, ?_, ?_⟩
  case min => exact floats_of_optionalMember fun x hx => List.forall_mem_singleton.mpr (hmin x hx)
  case max => exact floats_of_optionalMember fun x hx => List.forall_mem_singleton.mpr (hmax x hx)
  case fileTypes | choices =>
    refine floats_of_optionalMember fun values _ => ?_
    rw [floats, forall_mem_itemsFloats_iff, List.forall_mem_map]
    exact fun _ _ => List.forall_mem_nil _
  all_goals exact floats_of_optionalMember fun _ _ => List.forall_mem_nil _

theorem readsBack_of_same_metadata {m m' : Metadata}
    (h : Decodes Rereads limit (.record .metadata) m.toJson m') (hsame : m.same m' = true) :
    ∀ x ∈ m.toJson.floats, x.ReadsBack := by
  cases limit with
  | zero => exact h.elim
  | succ n =>
    obtain ⟨_, ⟨⟩⟩ | ⟨ms, ⟨_, _, _, _⟩, _, hms, rfl, hslots, -⟩ := h
    obtain ⟨-, hmin, hmax, -⟩ := hslots
    obtain ⟨hgetMin, hgetMax⟩ := get?_bounds hms
    rw [hgetMin] at hmin
    rw [hgetMax] at hmax
    simp only [Metadata.same, Bool.and_eq_true] at hsame
    obtain ⟨⟨hsameMin, hsameMax⟩, -⟩ := hsame
    refine floats_of_metadata (fun x hx => ?_) fun x hx => ?_
    · obtain ⟨y, hy, hxy⟩ := exists_decoded_of_same hmin hsameMin (fun _ _ => nofun) x hx
      exact readsBack_of_same_float hy hxy
    · obtain ⟨y, hy, hxy⟩ := exists_decoded_of_same hmax hsameMax (fun _ _ => nofun) x hx
      exact readsBack_of_same_float hy hxy

end Document

namespace Schema

/-- What an unambiguous schema is written with under the keys of keywords that may have floats. -/
theorem get?_placed {s : Schema} {ms : Dict Json} (h : s.toJson = .object ms)
    (hunknown : ∀ k ∈ Dict.keys s.extra, k ∉ placed) :
    Dict.get? ms "default" = s.default.map id ∧ Dict.get? ms "enum" = s.allowed.map .array ∧
      Dict.get? ms "items" = s.items.map toJson ∧
      Dict.get? ms "metadata" = s.metadata.map Metadata.toJson ∧
      ∀ key, key ∉ placed → Dict.get? ms key = Dict.get? s.extra key := by
  rw [toJson_eq] at h
  obtain rfl := Json.object.inj h
  have hextra : ∀ key ∈ placed, Dict.get? s.extra key = none := fun key hkey =>
    Dict.get?_eq_none_iff.mpr fun hmem => hunknown key hmem hkey
  refine ⟨?_, ?_, ?_, ?_, fun key hkey => ?_⟩
  · simp [Dict.get?_append, Document.get?_optionalMember, hextra "default" (by decide)]
  · simp [Dict.get?_append, Document.get?_optionalMember, hextra "enum" (by decide)]
  · simp [Dict.get?_append, Document.get?_optionalMember, hextra "items" (by decide)]
  · simp [Dict.get?_append, Document.get?_optionalMember, hextra "metadata" (by decide)]
  · simp only [placed, List.mem_cons, List.not_mem_nil, not_or, or_false] at hkey
    simp [Dict.get?_append, Document.get?_optionalMember, Ne.symm, hkey]

/-- The floats of a schema. -/
theorem floats_of_schema {s : Schema} {P : Finite64 → Prop}
    (hdefault : ∀ j, s.default = some j → ∀ x ∈ j.floats, P x)
    (hallowed : ∀ js, s.allowed = some js → ∀ x ∈ (Json.array js).floats, P x)
    (hitems : ∀ i, s.items = some i → ∀ x ∈ i.toJson.floats, P x)
    (hmetadata : ∀ m, s.metadata = some m → ∀ x ∈ m.toJson.floats, P x)
    (hextra : ∀ x ∈ (Json.object s.extra).floats, P x) : ∀ x ∈ s.toJson.floats, P x := by
  rw [Json.floats, Json.forall_mem_membersFloats_iff] at hextra
  rw [toJson_eq, Json.floats, Json.forall_mem_membersFloats_iff]
  simp only [List.forall_mem_append]
  refine ⟨?_, ?_, ?default, ?allowed, ?items, ?_, ?metadata, hextra⟩
  case default => exact Document.floats_of_optionalMember hdefault
  case allowed => exact Document.floats_of_optionalMember hallowed
  case items => exact Document.floats_of_optionalMember hitems
  case metadata => exact Document.floats_of_optionalMember hmetadata
  all_goals exact Document.floats_of_optionalMember fun _ _ => List.forall_mem_nil _

variable {limit : Nat}

/-- The floats of a schema are read back if those of its items are. -/
theorem readsBack_of_same_items {s t : Schema} (hkeys : s.KeysOnce) (hunambiguous : s.Unambiguous)
    (h : Document.Decodes Json.Rereads (limit + 1) (.record .schema) s.toJson t)
    (hsame : s.same t = true)
    (hitems : ∀ i, s.items = some i → ∀ i', Document.Decodes Json.Rereads limit (.record .schema)
      i.toJson i' → i.same i' = true → ∀ x ∈ i.toJson.floats, x.ReadsBack) :
    ∀ x ∈ s.toJson.floats, x.ReadsBack := by
  obtain ⟨hdefaultKeys, hallowedKeys, -, hextraKeys⟩ := keysOnce_iff.mp hkeys
  obtain ⟨hnull, hunknown, -⟩ := unambiguous_iff.mp hunambiguous
  rw [toJson_eq] at h
  obtain ⟨_, ⟨⟩⟩ | ⟨ms, ⟨_, _, _, _, _, _, _, ⟨⟩⟩, extra', hms, rfl, hslots, hkept⟩ := h
  obtain ⟨-, -, hdefault, hallowed, hitem, -, hmetadata, -⟩ := hslots
  obtain ⟨hgetDefault, hgetAllowed, hgetItems, hgetMetadata, hgetExtra⟩ :=
    get?_placed (s.toJson_eq.trans hms) hunknown
  obtain ⟨-, -, hsameDefault, hsameAllowed, hsameItems, -, hsameMetadata, hsameExtra⟩ :=
    same_iff.mp hsame
  rw [hgetDefault] at hdefault
  rw [hgetAllowed] at hallowed
  rw [hgetItems] at hitem
  rw [hgetMetadata] at hmetadata
  refine floats_of_schema ?default ?allowed ?items ?metadata ?extra
  case default =>
    intro j hj
    have hne : ∀ j, s.default = some j → j ≠ .null := fun j hj hn => hnull (hn ▸ hj)
    obtain ⟨v, hv, hjv⟩ := Document.exists_decoded_of_same hdefault hsameDefault hne j hj
    exact Json.readsBack_of_same j (hdefaultKeys j hj) (Document.decodes_any.mp hv) hjv
  case allowed =>
    intro js hjs
    obtain ⟨vs, hvs, hsame⟩ :=
      Document.exists_decoded_of_same hallowed hsameAllowed (fun _ _ => nofun) js hjs
    exact Document.readsBack_of_same_list (hallowedKeys js hjs) hvs hsame
  case items =>
    intro i hi
    obtain ⟨i', hi', hsame⟩ :=
      Document.exists_decoded_of_same hitem hsameItems (fun i _ => i.toJson_ne_null) i hi
    exact hitems i hi i' hi' hsame
  case metadata =>
    intro m hm
    obtain ⟨m', hm', hsame⟩ :=
      Document.exists_decoded_of_same hmetadata hsameMetadata (fun _ _ => nofun) m hm
    exact Document.readsBack_of_same_metadata hm' hsame
  case extra =>
    -- a further keyword is kept, so it is decoded from its member
    rw [Json.KeysOnce, Json.membersKeysOnce_iff] at hextraKeys
    refine Json.members_readBack_of_same s.extra hextraKeys.2 fun m hm => ?_
    obtain ⟨w, hw, hmw⟩ := (Dict.sameBy_iff.mp hsameExtra).2 m hm
    have hkey : m.1 ∉ placed := hunknown m.1 (List.mem_map_of_mem hm)
    have hrel := hkept m.1
    rw [if_pos ⟨rfl, hkey⟩, hgetExtra m.1 hkey, (Dict.get?_eq_some_iff hextraKeys.1).mpr hm,
      show Dict.get? extra' m.1 = some w from hw] at hrel
    cases hrel with
    | some hrel => exact ⟨w, hrel, hmw⟩

/-- Only floats that are read back can equal those that were decoded from what is written. -/
theorem readsBack_of_same : {limit : Nat} → (s : Schema) → {t : Schema} → s.KeysOnce →
    s.Unambiguous → Document.Decodes Json.Rereads limit (.record .schema) s.toJson t →
    s.same t = true → ∀ x ∈ s.toJson.floats, x.ReadsBack
  | 0, _, _, _, _, h, _ => h.elim
  | _ + 1, ⟨_, _, _, _, none, _, _, _⟩, _, hkeys, hunambiguous, h, hsame =>
    readsBack_of_same_items hkeys hunambiguous h hsame nofun
  | _ + 1, ⟨_, _, _, _, some i, _, _, _⟩, _, hkeys, hunambiguous, h, hsame => by
    refine readsBack_of_same_items hkeys hunambiguous h hsame ?_
    rintro _ ⟨⟩ i' hi' hsame
    exact readsBack_of_same i hkeys.2.2.1 hunambiguous.2.2 hi' hsame

/-! ## Built schemas -/

/-- What is read from the text of a schema that the builder methods have made equals the schema if
and only if neither it nor one of its items has the default value `null` or a further keyword with
the name of one that has a place of its own, and its floats are read back. -/
theorem ofText?_built_iff {s : Schema} (h : Built s) (hdepth : s.toJson.depth ≤ Json.depthLimit)
    {text : String} (htext : text = s.toJson.compact ∨ text = s.toJson.indented) :
    (∃ t, Schema.ofText? text = .ok t ∧ s.same t = true) ↔
      s.Unambiguous ∧ ∀ x ∈ s.toJson.floats, x.ReadsBack := by
  constructor
  · rintro ⟨t, ht, hsame⟩
    have hheld : Document.Held Json.depthLimit (.record .schema) t :=
      (Document.yields_readShape (.record .schema) (Nat.zero_le _)).of_readText ht
    have hunambiguous := unambiguous_of_same s hheld hsame
    have hdenotes := Json.denotes_text hdepth htext
    rw [Json.merged_eq_self _ (keysOnce_toJson s h.keysOnce hunambiguous)] at hdenotes
    obtain ⟨rest, hgives⟩ := Document.exists_gives_of_readText ht
    have hdecodes := (Document.tracks_readShape Json.readAs_writeSense Json.depthLimit
      (.record .schema) _ _ _ _ _ hdenotes hgives).1
    exact ⟨hunambiguous, readsBack_of_same s h.keysOnce hunambiguous hdecodes hsame⟩
  · rintro ⟨hunambiguous, hfloats⟩
    obtain ⟨hcompact, hindented⟩ := Document.ofText?_of_encodes
      (Document.encodes_schema s h.keysOnce hunambiguous) ⟨hdepth, hfloats⟩
    refine ⟨s, ?_, same_self s h.keysOnce⟩
    rcases htext with rfl | rfl
    · exact hcompact
    · exact hindented

/-- A list of texts with a keyword without a place of its own, whose value is `null`. -/
def tags : Schema :=
  ((array (string.withDefault (.string ""))).withOrder 2).withKeyword "pattern" .null

theorem ofText?_built_iff_tags :
    ∃ t, Schema.ofText? tags.toJson.compact = .ok t ∧ tags.same t = true := by
  have hbuilt : Built tags :=
    .withKeyword (.withOrder (.array (.withDefault (.ofType "string") (.string "") trivial)) 2)
      "pattern" .null trivial
  have hunambiguous : tags.Unambiguous := ⟨nofun, by decide, nofun, by decide, trivial⟩
  have hfloats : ∀ x ∈ tags.toJson.floats, x.ReadsBack := List.forall_mem_nil _
  exact (ofText?_built_iff hbuilt (by decide) (.inl rfl)).mpr ⟨hunambiguous, hfloats⟩

/-- A text whose default value is set to `null`. -/
def nullText : Schema := string.withDefault .null

/-- The default value is written and not read, so the schema does not survive. -/
theorem not_same_nullText : Built nullText ∧
    nullText.toJson.compact = "\x7b\"type\":\"string\",\"default\":null\x7d" ∧
    ∃ t, Schema.ofText? nullText.toJson.compact = .ok t ∧ nullText.same t = false := by
  have hbuilt : Built nullText := .withDefault (.ofType "string") .null trivial
  have hread : (Schema.ofText? nullText.toJson.compact).toOption.map nullText.same = some false := by
    decide +kernel
  obtain ⟨t, ht, hsame⟩ := map_toOption_eq_some.mp hread
  exact ⟨hbuilt, by decide +kernel, t, ht, hsame⟩

end Schema
end StepGraph
