import StepGraph.Proofs.Document.Reading
import StepGraph.Proofs.Json.Skipping

/-!
# How a document is decoded

`Decodes M limit s j value` says that `value` is what the shape `s` makes of the JSON value `j`,
with numbers that `M` relates to those of `j`. It has a clause for each shape and speaks of no text.
The reader of a shape follows it (`tracks_readShape`): where the text denotes `j`, the reader stops
where `j` ends, and what it gives is decoded from `j`.

* `Presence.Decodes`: the value of a field, by the member of its key, if there is one.
* `Keeps`: an open record keeps the members that are no fields, a closed one keeps nothing.
-/

namespace StepGraph
namespace Document

open Json

variable {α : Type}

/-- A name from a table, alone or as the only key of an object with the value `null`. -/
def Named (table : List (String × α)) (j : Json) (a : α) : Prop :=
  ∃ name, Dict.get? table name = some a ∧ (j = .string name ∨ j = .object [(name, .null)])

/-- The value of a field, from the member of its key. -/
def Presence.Decodes (D : Json → α → Prop) : (p : Presence α) → Option Json → p.Carrier → Prop
  | p, none, a => p.absent? = some a
  | required, some j, a | defaulted _, some j, a => D j a
  | optional, some j, a | omittable, some j, a =>
    (j = .null ∧ a = none) ∨ (j ≠ .null ∧ ∃ v, a = some v ∧ D j v)
  | nullable, some j, a => ∃ v, a = some v ∧ D j v

/-- `P` relates the member of each field to the value of the field. -/
def Slots.Decode (P : (f : Field) → Option Json → f.Carrier → Prop) (ms : Dict Json) :
    (fs : List Field) → Slots fs → Prop
  | [], () => True
  | f :: fs, (value, values) => P f (Dict.get? ms f.key) value ∧ Decode P ms fs values

/-- The record keeps the members that are no fields if it is open, and nothing else. -/
def Keeps (M : Number → Number → Prop) (r : Record) (ms extra : Dict Json) : Prop :=
  ∀ key, Option.Rel (Renumbered M)
    (if r.isOpen = true ∧ key ∉ r.fields.map (·.key) then Dict.get? ms key else none)
    (Dict.get? extra key)

/-- The value is what the shape makes of the JSON value. -/
def Decodes (M : Number → Number → Prop) :
    (limit : Nat) → (s : Shape) → Json → s.Carrier → Prop
  | _, .any, j, v => Renumbered M j v
  | _, .text, j, s => j = .string s
  | _, .flag, j, b => j = .bool b
  | _, .int64, j, n => ∃ x y, j = .number x ∧ M x y ∧ toInt64 y = .ok n
  | _, .float64, j, z => ∃ x y, j = .number x ∧ M x y ∧ toFinite64 y = .ok z
  | _, .contentType, j, c => Named ContentType.table j c
  | _, .status, j, c => Named Run.Status.table j c
  | limit + 1, .list item, j, vs => ∃ js, j = .array js ∧ List.Forall₂ (Decodes M limit item) js vs
  | limit + 1, .dict entry, j, vs => ∃ ms, j = .object ms ∧ Dict.Rel (Decodes M limit entry) ms vs
  | limit + 1, .record r, j, v =>
    -- nothing is said of a record that is written as the list of its values
    (∃ js, j = .array js) ∨ ∃ ms slots extra, j = .object ms ∧ v = r.make slots extra ∧
      Slots.Decode (fun f => f.presence.Decodes (Decodes M limit f.shape)) ms r.fields slots ∧
      Keeps M r ms extra
  | 0, .list _, _, _ | 0, .dict _, _, _ | 0, .record _, _, _ => False

variable {M : Number → Number → Prop} {N : Sense Number} {limit : Nat}

/-! ## Simple values -/

theorem tracks_readString : Tracks (Denotes N limit) readString fun j s => j = .string s := by
  intro cs j rest s rest' h hs
  obtain ⟨c, tail, hspace, hread⟩ := hs.of_byFirst
  split at hread
  · rename_i hc
    subst hc
    obtain ⟨t, rfl, ht⟩ := h.of_quote hspace
    obtain ⟨rfl, rfl⟩ := ht.unique hread.of_behind
    exact ⟨rfl, rfl⟩
  · obtain ⟨_, hread⟩ := hread
    cases hread

theorem tracks_readFlag : Tracks (Denotes N limit) readFlag fun j b => j = .bool b := by
  intro cs j rest b rest' h hb
  obtain ⟨c, tail, hspace, hread⟩ := hb.of_byFirst
  split at hread
  · rename_i hc
    subst hc
    obtain ⟨rfl, rfl⟩ := h.of_true hspace
    obtain ⟨rfl, ⟨⟩⟩ := hread.of_wordAfter
    exact ⟨rfl, rfl⟩
  split at hread
  · rename_i hc
    subst hc
    obtain ⟨rfl, rfl⟩ := h.of_false hspace
    obtain ⟨rfl, ⟨⟩⟩ := hread.of_wordAfter
    exact ⟨rfl, rfl⟩
  · obtain ⟨_, hread⟩ := hread
    cases hread

theorem tracks_readNumberAs (hN : ReadAs N M) {expected : Expected}
    {convert : Number → Except Fault α} : Tracks (Denotes N limit) (readNumberAs expected convert)
      fun j a => ∃ x y, j = .number x ∧ M x y ∧ convert y = .ok a := by
  intro cs j rest a rest' h ha
  obtain ⟨c, tail, hspace, hread⟩ := ha.of_byFirst
  split at hread
  · rename_i hc
    obtain ⟨x, rfl, hx⟩ := h.of_number hspace hc
    obtain ⟨_, hread⟩ := hread
    split at hread
    · cases hread
    rename_i p hp
    split at hread
    · cases hread
    rename_i hconvert
    cases hread
    obtain ⟨hxy, hrest⟩ := hN.tracks _ _ _ _ _ hx (gives_of_eq_ok hp)
    exact ⟨⟨x, p.value, rfl, hxy, hconvert⟩, hrest⟩
  · obtain ⟨_, hread⟩ := hread
    cases hread

section

variable {cs rest : List Char} {a : α} {table : List (String × α)}

theorem of_readName (h : Gives (readName table cs) a rest) :
    ∃ name, Dict.get? table name = some a ∧ Gives (stringAfterQuote cs) name rest := by
  obtain ⟨_, h⟩ := h
  unfold readName at h
  split at h
  · cases h
  · rename_i p hp
    split at h
    · rename_i hname
      cases h
      exact ⟨p.value, hname, gives_of_eq_ok hp⟩
    · cases h

theorem of_followedBy {r : Reader α} {after : Reader Unit}
    (h : Gives (followedBy r after cs) a rest) :
    ∃ mid, Gives (r cs) a mid ∧ Gives (after mid) () rest := by
  obtain ⟨_, h⟩ := h
  unfold followedBy at h
  split at h
  · cases h
  · rename_i p hp
    split at h
    · cases h
    · rename_i q hq
      cases h
      exact ⟨p.rest, gives_of_eq_ok hp, gives_of_eq_ok hq⟩

theorem of_readNameKey (h : Gives (readNameKey table cs) a rest) :
    ∃ start, nextKey true cs = .ok (some start) ∧ Gives (readName table start) a rest := by
  obtain ⟨_, h⟩ := h
  unfold readNameKey at h
  split at h
  · cases h
  · cases h
  · rename_i start hstart
    split at h
    · cases h
    · rename_i p hp
      cases h
      exact ⟨start, hstart, gives_of_eq_ok hp⟩

theorem of_readOnlyMemberEnd (h : Gives (readOnlyMemberEnd cs) () rest) :
    skipSpace cs = '\x7d' :: rest := by
  obtain ⟨_, h⟩ := h
  unfold readOnlyMemberEnd at h
  split at h
  · cases h
  · rename_i c tail hs
    split at h
    · rename_i hc
      cases h
      rw [hs, hc]
    · cases h

end

/-- `null` is read where it is denoted. -/
theorem tracks_readNull : Tracks (Denotes N limit) readNull fun j _ => j = .null := by
  intro cs j rest u rest' h hu
  obtain ⟨c, tail, hspace, hread⟩ := hu.of_byFirst
  split at hread
  · rename_i hc
    subst hc
    obtain ⟨rfl, rfl⟩ := h.of_null hspace
    obtain ⟨-, ⟨⟩⟩ := hread.of_wordAfter
    exact ⟨rfl, rfl⟩
  · obtain ⟨_, hread⟩ := hread
    cases hread

/-- Behind the brace stand the name as a key, `null` and the other brace. -/
theorem tracks_nameObject (table : List (String × α)) : Tracks (Members (Denotes N limit) true)
    (followedBy (followedBy (readNameKey table) (afterColon readNull)) readOnlyMemberEnd)
    fun ms a => ∃ name, Dict.get? table name = some a ∧ ms = [(name, .null)] := by
  intro cs ms rest a rest' h ha
  obtain ⟨behindNull, ha, hclose⟩ := of_followedBy ha
  obtain ⟨behindKey, ha, hnull⟩ := of_followedBy ha
  obtain ⟨start, hstart, ha⟩ := of_readNameKey ha
  obtain ⟨name, hname, hkey⟩ := of_readName ha
  have hend := of_readOnlyMemberEnd hclose
  cases h with
  | done hempty =>
    rw [nextKey_end hempty] at hstart
    cases hstart
  | more hnext hkey' hcolon head others =>
    rw [hstart] at hnext
    cases hnext
    obtain ⟨rfl, rfl⟩ := hkey.unique hkey'
    obtain ⟨rfl, rfl⟩ := tracks_readNull.afterColon _ _ _ _ _ ⟨_, hcolon, head⟩ hnull
    cases others with
    | done hend' =>
      rw [hend] at hend'
      cases hend'
      exact ⟨⟨name, hname, rfl⟩, rfl⟩
    | more hnext =>
      rw [nextKey_end hend] at hnext
      cases hnext

theorem tracks_readVariant (table : List (String × α)) :
    Tracks (Denotes N limit) (readVariant limit table) (Named table) := by
  intro cs j rest a rest' h ha
  obtain ⟨c, tail, hspace, hread⟩ := ha.of_byFirst
  split at hread
  · rename_i hc
    subst hc
    obtain ⟨s, rfl, hs⟩ := h.of_quote hspace
    obtain ⟨name, hname, hread⟩ := of_readName hread.of_behind
    obtain ⟨rfl, rfl⟩ := hs.unique hread
    exact ⟨⟨s, hname, .inl rfl⟩, rfl⟩
  split at hread
  · rename_i hc
    subst hc
    obtain ⟨n, members, rfl, rfl, hmembers⟩ := h.of_brace hspace
    rw [if_neg (Nat.succ_ne_zero n)] at hread
    obtain ⟨⟨name, hname, rfl⟩, hrest⟩ :=
      tracks_nameObject table _ _ _ _ _ hmembers hread.of_behind
    exact ⟨⟨name, hname, .inr rfl⟩, hrest⟩
  · obtain ⟨_, hread⟩ := hread
    cases hread

/-! ## Fields -/

/-- `null` stands for no value, and only where the text denotes it. -/
theorem tracks_orNull {r : Reader α} {R : Json → α → Prop} (h : Tracks (Denotes N limit) r R) :
    Tracks (Denotes N limit) (orNull r) fun j a =>
      (j = .null ∧ a = none) ∨ (j ≠ .null ∧ ∃ v, a = some v ∧ R j v) := by
  intro cs j rest a rest' hj ha
  unfold orNull at ha
  split at ha
  · rename_i hn
    obtain ⟨c, tail, hspace, hread⟩ := ha.of_byFirst
    rw [hspace] at hn
    cases hn
    obtain ⟨rfl, rfl⟩ := hj.of_null hspace
    obtain ⟨rfl, ⟨⟩⟩ := hread.of_wordAfter
    exact ⟨.inl ⟨rfl, rfl⟩, rfl⟩
  · rename_i hn
    obtain ⟨v, hv, rfl⟩ := ha.of_map
    refine (h _ _ _ _ _ hj hv).imp_left fun hR => .inr ⟨?_, v, rfl, hR⟩
    rintro rfl
    rw [Denotes] at hj
    exact hn (by rw [hj]; rfl)

theorem tracks_readPresent (p : Presence α) {r : Reader α} {R : Json → α → Prop}
    (h : Tracks (Denotes N limit) r R) :
    Tracks (Denotes N limit) (readPresent p r) fun j a => p.Decodes R (some j) a := by
  cases p with
  | required | defaulted => exact h
  | optional | omittable => exact tracks_orNull h
  | nullable => exact h.map fun j v hv => ⟨v, rfl, hv⟩

/-! ## Records -/

section

variable {read : (f : Field) → Reader f.Carrier} {P : (f : Field) → Option Json → f.Carrier → Prop}
  {D : Sense Json} {fs : List Field} {d : Draft fs} {ms : Dict Json} {key : String}

/-- The slots that are filled are those of the members so far. -/
def Draft.Decode (P : (f : Field) → Option Json → f.Carrier → Prop) (ms : Dict Json) :
    (fs : List Field) → Draft fs → Prop
  | [], () => True
  | f :: fs, (slot, rest) =>
    Option.Rel (fun j value => P f (some j) value) (Dict.get? ms f.key) slot ∧ Decode P ms fs rest

theorem Draft.decode_empty (fs : List Field) : Draft.Decode P [] fs (Draft.empty fs) := by
  induction fs with
  | nil => trivial
  | cons f fs ih => exact ⟨.none, ih⟩

/-- A member of another key changes no slot. -/
theorem Draft.Decode.insert (h : Draft.Decode P ms fs d) (hkey : key ∉ fs.map (·.key)) (j : Json) :
    Draft.Decode P (Dict.insert ms key j) fs d := by
  induction fs with
  | nil => trivial
  | cons f fs ih =>
    obtain ⟨slot, rest⟩ := d
    obtain ⟨hslot, hrest⟩ := h
    rw [List.map_cons, List.mem_cons, not_or] at hkey
    refine ⟨?_, ih hrest hkey.2⟩
    rw [Dict.get?_insert, if_neg hkey.1]
    exact hslot

/-- The member of a field fills the slot of the field, which was empty. -/
theorem Draft.tracks_readMember (hread : ∀ f ∈ fs, Tracks D (read f) fun j => P f (some j))
    (hnodup : (fs.map (·.key)).Nodup) (hd : Draft.Decode P ms fs d) {reader : Reader (Draft fs)}
    (h : Draft.readMember? read key fs d = some reader) :
    Tracks (BehindColon D) reader fun j e => Draft.Decode P (Dict.insert ms key j) fs e := by
  induction fs with
  | nil => cases h
  | cons f fs ih =>
    obtain ⟨slot, rest⟩ := d
    obtain ⟨hslot, hrest⟩ := hd
    obtain ⟨hhead, htail⟩ := List.forall_mem_cons.mp hread
    rw [List.map_cons, List.nodup_cons] at hnodup
    unfold Draft.readMember? at h
    split at h
    · rename_i hkey
      subst hkey
      split at h
      · cases h
        rintro _ _ _ _ _ _ ⟨_, h⟩
        cases h
      · cases h
        refine hhead.afterColon.map fun j value hvalue => ⟨?_, hrest.insert hnodup.1 j⟩
        rw [Dict.get?_insert, if_pos rfl]
        exact .some hvalue
    · rename_i hkey
      obtain ⟨r, hr, rfl⟩ := Option.map_eq_some_iff.mp h
      refine (ih htail hnodup.2 hrest hr).map fun j e he => ⟨?_, he⟩
      rw [Dict.get?_insert, if_neg (Ne.symm hkey)]
      exact hslot

/-- At the end the empty slots take the values of fields that are left out. -/
theorem Draft.decode_finish (habsent : ∀ f ∈ fs, ∀ value, f.presence.absent? = some value →
      P f none value) {slots : Slots fs} (hd : Draft.Decode P ms fs d)
    (h : Draft.finish fs d = .ok slots) : Slots.Decode P ms fs slots := by
  induction fs with
  | nil => trivial
  | cons f fs ih =>
    obtain ⟨slot, rest⟩ := d
    obtain ⟨hslot, hrest⟩ := hd
    obtain ⟨hhead, htail⟩ := List.forall_mem_cons.mp habsent
    unfold Draft.finish at h
    split at h
    · cases h
    · rename_i value hvalue
      obtain ⟨values, hvalues, rfl⟩ := map_eq_ok.mp h
      refine ⟨?_, ih htail hrest hvalues⟩
      generalize Dict.get? ms f.key = member at hslot ⊢
      cases hslot with
      | none => exact hhead value hvalue
      | some hslot =>
        cases hvalue
        exact hslot

theorem mem_of_readMember?_eq_some {reader : Reader (Draft fs)}
    (h : Draft.readMember? read key fs d = some reader) : key ∈ fs.map (·.key) := by
  by_contra hkey
  rw [readMember?_eq_none hkey] at h
  cases h

theorem keeps_nil (r : Record) : Keeps M r [] [] := by
  intro key
  rw [show Dict.get? ([] : Dict Json) key = none from rfl, ite_self]
  exact .none

/-- A member of a field is not kept. -/
theorem Keeps.insert_field {r : Record} {extra : Dict Json} (h : Keeps M r ms extra)
    (hkey : key ∈ r.fields.map (·.key)) (j : Json) : Keeps M r (Dict.insert ms key j) extra := by
  intro k
  have hk := h k
  rw [Dict.get?_insert]
  by_cases heq : key = k
  · subst heq
    rw [if_neg fun hopen => hopen.2 hkey] at hk ⊢
    exact hk
  · rwa [if_neg heq]

/-- A closed record keeps no member. -/
theorem Keeps.insert_closed {r : Record} {extra : Dict Json} (h : Keeps M r ms extra)
    (hr : ¬r.isOpen = true) (key : String) (j : Json) :
    Keeps M r (Dict.insert ms key j) extra := by
  intro k
  have hk := h k
  rw [if_neg fun hopen => hr hopen.1] at hk ⊢
  exact hk

/-- An open record keeps the member of another key. -/
theorem Keeps.insert_open {r : Record} {extra : Dict Json} (h : Keeps M r ms extra)
    (hr : r.isOpen = true) (hkey : key ∉ r.fields.map (·.key)) {j v : Json}
    (hv : Renumbered M j v) : Keeps M r (Dict.insert ms key j) (Dict.insert extra key v) := by
  intro k
  have hk := h k
  rw [Dict.get?_insert, Dict.get?_insert]
  by_cases heq : key = k
  · subst heq
    rw [if_pos ⟨hr, hkey⟩, if_pos rfl, if_pos rfl]
    exact .some hv
  · rwa [if_neg heq, if_neg heq]

/-- A member fills the slot of its field, or else is kept or passed over. -/
theorem tracks_readRecordMember (hN : ReadAs N M) {r : Record}
    (hread : ∀ f ∈ r.fields, Tracks (Denotes N limit) (read f) fun j => P f (some j))
    (ms : Dict Json) (state : Draft r.fields × Dict Json) (key : String)
    (h : Draft.Decode P ms r.fields state.1 ∧ Keeps M r ms state.2) :
    Tracks (BehindColon (Denotes N limit)) (readRecordMember r limit read state key) fun j t =>
      Draft.Decode P (Dict.insert ms key j) r.fields t.1 ∧
        Keeps M r (Dict.insert ms key j) t.2 := by
  obtain ⟨hdraft, hkept⟩ := h
  unfold readRecordMember
  split
  · rename_i reader hreader
    have hkey := mem_of_readMember?_eq_some hreader
    exact (Draft.tracks_readMember hread (fields_nodup r) hdraft hreader).map fun j e he =>
      ⟨he, hkept.insert_field hkey j⟩
  · rename_i hnone
    have hkey := not_mem_of_readMember?_eq_none hnone
    split
    · rename_i hopen
      exact (tracks_readJson hN limit).afterColon.map fun j v hv =>
        ⟨hdraft.insert hkey j, hkept.insert_open hopen hkey hv⟩
    · rename_i hclosed
      exact (tracks_skipValue hN limit).afterColon.map fun j _ _ =>
        ⟨hdraft.insert hkey j, hkept.insert_closed hclosed key j⟩

theorem tracks_readMembers (hN : ReadAs N M) {r : Record}
    (hread : ∀ f ∈ r.fields, Tracks (Denotes N limit) (read f) fun j => P f (some j))
    (habsent : ∀ f ∈ r.fields, ∀ value, f.presence.absent? = some value → P f none value) :
    Tracks (Members (Denotes N limit) true) (readMembers r limit read) fun ms value =>
      ∃ slots extra, value = r.make slots extra ∧
        Slots.Decode P (Dict.ofList ms) r.fields slots ∧ Keeps M r (Dict.ofList ms) extra := by
  have hstart : Draft.Decode P [] r.fields (Draft.empty r.fields) ∧ Keeps M r [] [] :=
    ⟨Draft.decode_empty r.fields, keeps_nil r⟩
  refine (tracks_objectMembers (tracks_readRecordMember hN hread) true hstart).imp ?_
  rintro ms value ⟨state, ⟨hdraft, hkept⟩, hfinish⟩
  obtain ⟨slots, hslots, rfl⟩ := map_eq_ok.mp hfinish
  exact ⟨slots, state.2, rfl, Draft.decode_finish habsent hdraft hslots, hkept⟩

/-- The list of the values of fields is read to its end. -/
theorem tracks_readElements (r : Record) {R : (f : Field) → Json → f.Carrier → Prop}
    (hread : ∀ f ∈ fs, Tracks D (read f) (R f)) (count : Nat) (first : Bool) :
    Tracks (Items D first) (readElements r read count first fs) fun _ _ => True := by
  induction fs generalizing count first with
  | nil =>
    rintro cs js rest ⟨⟩ rest' h hend
    have hend := Gives.of_endList hend
    cases h with
    | done hend' =>
      rw [hend] at hend'
      cases hend'
      exact ⟨trivial, rfl⟩
    | more hnext =>
      rw [nextItem_end hend] at hnext
      cases hnext
  | cons f fs ih =>
    obtain ⟨hhead, htail⟩ := List.forall_mem_cons.mp hread
    intro cs js rest values rest' h hvalues
    obtain ⟨shorter, hvalues⟩ := hvalues
    unfold readElements at hvalues
    split at hvalues
    · cases hvalues
    · split at hvalues
      · cases hvalues
      · obtain ⟨others, hothers, -⟩ := Gives.of_map ⟨shorter, hvalues⟩
        exact ih htail (count + 1) first _ _ _ _ _ h hothers
    · rename_i start hstart
      split at hvalues
      · cases hvalues
      rename_i p hp
      split at hvalues
      · cases hvalues
      rename_i q hq
      cases hvalues
      cases h with
      | done hend =>
        rw [nextItem_end hend] at hstart
        cases hstart
      | more hnext head others =>
        rw [hstart] at hnext
        cases hnext
        obtain ⟨-, hmid⟩ := hhead _ _ _ _ _ head (gives_of_eq_ok hp)
        exact ih htail (count + 1) false _ _ _ _ _ (hmid ▸ others) (gives_of_eq_ok hq)

end

theorem tracks_readRecord (hN : ReadAs N M) (r : Record)
    (h : ∀ s, Tracks (Denotes N limit) (readShape limit s) (Decodes M limit s)) :
    Tracks (Denotes N (limit + 1)) (readRecord r (some (limit, readShape limit)))
      (Decodes M (limit + 1) (.record r)) := by
  have hread : ∀ f ∈ r.fields, Tracks (Denotes N limit) (readField limit f) fun j =>
      f.presence.Decodes (Decodes M limit f.shape) (some j) :=
    fun f _ => tracks_readPresent f.presence (h f.shape)
  intro cs j rest value rest' hj hvalue
  obtain ⟨c, tail, hspace, hvalue⟩ := hvalue.of_byFirst
  split at hvalue
  · rename_i hc
    dsimp only at hvalue
    split at hvalue
    · rename_i hbracket
      subst hbracket
      obtain ⟨_, js, ⟨⟩, rfl, hitems⟩ := hj.of_bracket hspace
      obtain ⟨slots, hslots, -⟩ := hvalue.of_behind.of_map
      obtain ⟨-, hrest⟩ := tracks_readElements r hread 0 true _ _ _ _ _ hitems hslots
      exact ⟨.inl ⟨js, rfl⟩, hrest⟩
    · rename_i hbracket
      obtain rfl : c = '\x7b' := hc.resolve_right fun h => hbracket h.1
      obtain ⟨_, members, ⟨⟩, rfl, hmembers⟩ := hj.of_brace hspace
      obtain ⟨⟨slots, extra, rfl, hslots, hkept⟩, hrest⟩ :=
        tracks_readMembers hN hread (fun f _ value hv => hv) _ _ _ _ _ hmembers hvalue.of_behind
      exact ⟨.inr ⟨_, slots, extra, rfl, rfl, hslots, hkept⟩, hrest⟩
  · obtain ⟨_, hvalue⟩ := hvalue
    cases hvalue

/-! ## All shapes -/

section

variable {cs rest : List Char}

theorem of_readContainer {opening : Char} {expected : Expected} {body : Option (Reader α)} {a : α}
    (h : Gives (readContainer opening expected body cs) a rest) :
    ∃ r tail, body = some r ∧ skipSpace cs = opening :: tail ∧ Gives (r tail) a rest := by
  obtain ⟨c, tail, hspace, hread⟩ := h.of_byFirst
  split at hread
  · rename_i hc
    subst hc
    cases body with
    | none =>
      obtain ⟨_, hread⟩ := hread
      cases hread
    | some r => exact ⟨r, tail, rfl, hspace, hread.of_behind⟩
  · obtain ⟨_, hread⟩ := hread
    cases hread

theorem not_gives_readRecord_none {r : Record} {value : r.Carrier} :
    ¬Gives (readRecord r none cs) value rest := by
  intro h
  obtain ⟨c, tail, -, h⟩ := h.of_byFirst
  split at h <;>
  · obtain ⟨_, h⟩ := h
    cases h

end

theorem tracks_readList {item : Shape}
    (h : Tracks (Denotes N limit) (readShape limit item) (Decodes M limit item)) :
    Tracks (Denotes N (limit + 1)) (readShape (limit + 1) (.list item))
      (Decodes M (limit + 1) (.list item)) := by
  rw [readShape_list]
  intro cs j rest values rest' hj hvalues
  obtain ⟨_, tail, ⟨⟩, hspace, hvalues⟩ := of_readContainer hvalues
  obtain ⟨_, js, ⟨⟩, rfl, hitems⟩ := hj.of_bracket hspace
  exact (tracks_listItems h true _ _ _ _ _ hitems hvalues).imp_left fun hall => ⟨js, rfl, hall⟩

theorem tracks_readDict {entry : Shape}
    (h : Tracks (Denotes N limit) (readShape limit entry) (Decodes M limit entry)) :
    Tracks (Denotes N (limit + 1)) (readShape (limit + 1) (.dict entry))
      (Decodes M (limit + 1) (.dict entry)) := by
  rw [readShape_dict]
  intro cs j rest values rest' hj hvalues
  obtain ⟨_, tail, ⟨⟩, hspace, hvalues⟩ := of_readContainer hvalues
  obtain ⟨_, members, ⟨⟩, rfl, hmembers⟩ := hj.of_brace hspace
  exact (tracks_dictBody h _ _ _ _ _ hmembers hvalues).imp_left fun hall => ⟨_, rfl, hall⟩

theorem tracks_scalar (hN : ReadAs N M) {s : Shape} (hs : s.isScalar = true) :
    Tracks (Denotes N limit) (readShape limit s) (Decodes M limit s) := by
  cases s with
  | any | list | dict | record => cases hs
  | text =>
    rw [readShape_text]
    exact tracks_readString.imp fun j s h => by rwa [Decodes]
  | flag =>
    rw [readShape_flag]
    exact tracks_readFlag.imp fun j b h => by rwa [Decodes]
  | int64 =>
    rw [readShape_int64]
    exact (tracks_readNumberAs hN).imp fun j n h => by rwa [Decodes]
  | float64 =>
    rw [readShape_float64]
    exact (tracks_readNumberAs hN).imp fun j x h => by rwa [Decodes]
  | contentType =>
    rw [readShape_contentType]
    exact (tracks_readVariant ContentType.table).imp fun j c h => by rwa [Decodes]
  | status =>
    rw [readShape_status]
    exact (tracks_readVariant Run.Status.table).imp fun j c h => by rwa [Decodes]

theorem decodes_any {j v : Json} : Decodes M limit .any j v ↔ Renumbered M j v := by
  rw [Decodes]

theorem tracks_readAny (hN : ReadAs N M) :
    Tracks (Denotes N limit) (readShape limit .any) (Decodes M limit .any) := by
  rw [readShape_any]
  exact (tracks_readJson hN limit).imp fun _ _ => decodes_any.mpr

/-- Where the text denotes a JSON value, the reader of a shape stops at its end, and what it gives
is decoded from the value. -/
theorem tracks_readShape (hN : ReadAs N M) (limit : Nat) (s : Shape) :
    Tracks (Denotes N limit) (readShape limit s) (Decodes M limit s) := by
  induction limit generalizing s with
  | zero =>
    cases s with
    | any => exact tracks_readAny hN
    | list | dict =>
      intro cs j rest values rest' _ hvalues
      obtain ⟨_, _, ⟨⟩, -⟩ := of_readContainer hvalues
    | record r => exact fun _ _ _ _ _ _ hvalue => absurd hvalue not_gives_readRecord_none
    | _ => exact tracks_scalar hN rfl
  | succ n ih =>
    cases s with
    | any => exact tracks_readAny hN
    | list item => exact tracks_readList (ih item)
    | dict entry => exact tracks_readDict (ih entry)
    | record r => exact tracks_readRecord hN r ih
    | _ => exact tracks_scalar hN rfl

/-! ## Whole texts -/

theorem exists_gives_of_readText {r : Reader α} {text : String} {a : α}
    (h : readText r text = .ok a) : ∃ rest, Gives (r text.toList) a rest := by
  unfold readText at h
  split at h
  · cases h
  · rename_i p hp
    split at h
    · cases h
      exact ⟨p.rest, gives_of_eq_ok hp⟩
    · cases h

/-- A document is decoded from the JSON value of its text. -/
theorem decodes_of_ofText? {s : Shape} {text : String} {j : Json} {value : s.Carrier}
    (hj : Json.ofText? text = .ok j) (h : ofText? s text = .ok value) :
    Decodes Eq depthLimit s j value := by
  obtain ⟨rest, hj⟩ := exists_gives_of_readText hj
  obtain ⟨rest', h⟩ := exists_gives_of_readText h
  exact (tracks_readShape readAs_readSense depthLimit s _ _ _ _ _ (denotes_of_gives hj) h).1

end Document
end StepGraph
