import Mathlib.Data.List.Forall2
import StepGraph.Json.Value
import StepGraph.Proofs.Json.Legible
import StepGraph.Proofs.Json.StringText

/-!
# JSON values read back

`Reads r j value` says that the reader `r` gets `value` from the text of `j`, in every layout that
puts only spaces around the tokens, behind spaces and before whatever does not go on with a number.

* `gives_listBody`: what reads the items reads the list.
* `Steps`, `gives_objectBody`: what takes one member after the other from state to state reads the
  object.
* `reads_json`: a value that has every key once is read back.
-/

namespace StepGraph
namespace Json

variable {α β σ : Type}

/-- Only spaces stand around the tokens. -/
structure Layout.Blank (l : Layout) : Prop where
  afterColon : Json.Blank l.afterColon
  lineBreak : ∀ depth, Json.Blank (l.lineBreak depth)

theorem Layout.compact_blank : Layout.compact.Blank := ⟨blank_nil, fun _ => blank_nil⟩

theorem Layout.indented_blank : Layout.indented.Blank where
  afterColon := by
    intro c hc
    rw [List.mem_singleton.mp hc]
    rfl
  lineBreak := by
    intro depth c hc
    rcases List.mem_cons.mp hc with rfl | hc
    · rfl
    · rw [List.eq_of_mem_replicate hc]
      rfl

/-- The reader gets `value` from the text of `j`. -/
def Reads (r : Reader α) (j : Json) (value : α) : Prop :=
  ∀ l : Layout, l.Blank → ∀ (depth : Nat) (blanks rest : List Char), Blank blanks →
    NumberEnds rest → Gives (r (blanks ++ j.write l depth rest)) value rest

theorem Reads.map {r : Reader α} {j : Json} {value : α} (f : α → β) (h : Reads r j value) :
    Reads (r.map f) j (f value) :=
  fun l hl depth blanks rest hb hr => (h l hl depth blanks rest hb hr).map

/-! ## How the text of a value starts -/

theorem numberStart_of_startsNumber {c : Char} (h : startsNumber c = true) :
    isSpace c = false ∧ c ≠ ']' ∧ c ≠ 'n' ∧ c ≠ 't' ∧ c ≠ 'f' ∧ c ≠ '"' := by
  refine ⟨?_, ?_, ?_, ?_, ?_, ?_⟩
  · cases hs : isSpace c with
    | false => rfl
    | true =>
      simp only [isSpace, Bool.or_eq_true, beq_iff_eq] at hs
      rcases hs with ((rfl | rfl) | rfl) | rfl <;> exact absurd h (by decide)
  all_goals
    rintro rfl
    exact absurd h (by decide)

open Decimal (digitChars)

theorem digitChars_eq_cons (n : Nat) :
    ∃ c tail, digitChars n = c :: tail ∧ startsNumber c = true := by
  cases hd : digitChars n with
  | nil => exact absurd hd Nat.toDigits_ne_nil
  | cons c tail =>
    have hc : c.isDigit = true := isDigit_of_mem_digitChars (hd ▸ List.mem_cons_self ..)
    exact ⟨c, tail, rfl, by rw [startsNumber, hc, Bool.or_true]⟩

theorem positional_eq_cons (d : Decimal) :
    ∃ c tail, d.positional = c :: tail ∧ startsNumber c = true := by
  obtain ⟨c, tail, hd, hc⟩ := digitChars_eq_cons d.digits
  unfold Decimal.positional
  simp only [hd]
  split
  · exact ⟨c, _, rfl, hc⟩
  split
  · rename_i hpoint
    obtain ⟨k, hk⟩ : ∃ k, d.point.toNat = k + 1 := ⟨d.point.toNat - 1, by omega⟩
    rw [hk]
    exact ⟨c, _, rfl, hc⟩
  · exact ⟨'0', _, rfl, by decide⟩

theorem scientific_eq_cons (d : Decimal) :
    ∃ c tail, d.scientific = c :: tail ∧ startsNumber c = true := by
  obtain ⟨c, tail, hd, hc⟩ := digitChars_eq_cons d.digits
  unfold Decimal.scientific
  simp only [hd]
  split
  · exact ⟨c, _, rfl, hc⟩
  · exact ⟨c, _, rfl, hc⟩

theorem jsonChars_eq_cons (x : Finite64) :
    ∃ c tail, x.jsonChars = c :: tail ∧ startsNumber c = true := by
  unfold Finite64.jsonChars Finite64.withSign
  dsimp only
  split
  · exact ⟨'-', _, rfl, by decide⟩
  split
  · exact positional_eq_cons _
  · exact scientific_eq_cons _

theorem numberChars_eq_cons (x : Number) :
    ∃ c tail, numberChars x = c :: tail ∧ startsNumber c = true := by
  cases x with
  | float x => exact jsonChars_eq_cons x
  | integer n h =>
    show ∃ c tail, intChars n = c :: tail ∧ startsNumber c = true
    unfold intChars
    split
    · exact ⟨'-', _, rfl, by decide⟩
    · exact digitChars_eq_cons _

/-- The text of a value starts with a token that is no closing bracket, and with an `n` only for
`null`. -/
theorem write_eq_cons (l : Layout) (depth : Nat) (j : Json) (rest : List Char) :
    ∃ c tail, j.write l depth rest = c :: tail ∧ isSpace c = false ∧ c ≠ ']' ∧
      (c = 'n' → j = .null) := by
  cases j with
  | null => exact ⟨'n', _, rfl, by decide, by decide, fun _ => rfl⟩
  | bool b =>
    cases b with
    | false => exact ⟨'f', _, rfl, by decide, by decide, (absurd · (by decide))⟩
    | true => exact ⟨'t', _, rfl, by decide, by decide, (absurd · (by decide))⟩
  | number x =>
    obtain ⟨c, tail, hx, hc⟩ := numberChars_eq_cons x
    obtain ⟨hspace, hbracket, hn, -⟩ := numberStart_of_startsNumber hc
    exact ⟨c, tail ++ rest, by rw [write, hx, List.cons_append], hspace, hbracket,
      fun h => absurd h hn⟩
  | string s =>
    exact ⟨'"', _, by rw [write, quoteChars_append], by decide, by decide, (absurd · (by decide))⟩
  | array js =>
    cases js with
    | nil => exact ⟨'[', _, by rw [write], by decide, by decide, (absurd · (by decide))⟩
    | cons j js => exact ⟨'[', _, by rw [write], by decide, by decide, (absurd · (by decide))⟩
  | object ms =>
    cases ms with
    | nil => exact ⟨'\x7b', _, by rw [write], by decide, by decide, (absurd · (by decide))⟩
    | cons m ms => exact ⟨'\x7b', _, by rw [write], by decide, by decide, (absurd · (by decide))⟩

/-! ## Lists -/

variable {item : Reader α}

theorem gives_endList {cs rest : List Char} (h : skipSpace cs = ']' :: rest) :
    Gives (endList cs) () rest := by
  unfold endList
  split
  · rename_i hnil
    rw [h] at hnil
    cases hnil
  · rename_i hcons
    rw [h] at hcons
    cases hcons
    exact ⟨_, if_pos rfl⟩

theorem gives_listItems_end {first : Bool} {cs rest : List Char}
    (h : skipSpace cs = ']' :: rest) : Gives (listItems item first cs) [] rest := by
  have hn : nextItem first cs = .ok none := by
    rw [nextItem, h]
    exact if_pos rfl
  rw [listItems.eq_def]
  split
  · rename_i hnext
    rw [hn] at hnext
    cases hnext
  · exact (gives_endList h).map
  · rename_i hnext
    rw [hn] at hnext
    cases hnext

theorem gives_listItems_next {first : Bool} {cs start mid rest : List Char} {value : α}
    {values : List α} (hn : nextItem first cs = .ok (some start))
    (hvalue : Gives (item start) value mid)
    (hvalues : Gives (listItems item false mid) values rest) :
    Gives (listItems item first cs) (value :: values) rest := by
  obtain ⟨_, hvalue⟩ := hvalue
  obtain ⟨_, hvalues⟩ := hvalues
  rw [listItems.eq_def]
  split
  · rename_i hnext
    rw [hn] at hnext
    cases hnext
  · rename_i hnext
    rw [hn] at hnext
    cases hnext
  · rename_i start' hnext
    rw [hn] at hnext
    cases hnext
    rw [hvalue]
    dsimp only
    rw [hvalues]
    exact ⟨_, rfl⟩

variable {l : Layout} {depth : Nat} {rest : List Char}

/-- Behind an item stands no part of a number. -/
theorem numberEnds_writeItems (hl : l.Blank) (js : List Json) :
    NumberEnds (writeItems l (depth + 1) js (l.lineBreak depth ++ ']' :: rest)) := by
  cases js with
  | nil =>
    rw [writeItems]
    exact numberEnds_blank (hl.lineBreak depth) (numberEnds_cons _ (by decide))
  | cons j js =>
    rw [writeItems]
    exact numberEnds_cons _ (by decide)

/-- A value behind spaces is the next item. -/
theorem nextItem_first (hl : l.Blank) (j : Json) :
    nextItem true (l.lineBreak depth ++ j.write l depth rest) =
      .ok (some (j.write l depth rest)) := by
  obtain ⟨c, tail, hw, hspace, hbracket, -⟩ := write_eq_cons l depth j rest
  rw [hw, nextItem, skipSpace_blank (hl.lineBreak depth) hspace]
  dsimp only
  rw [if_neg hbracket, if_pos rfl]

theorem nextItem_comma (hl : l.Blank) (j : Json) :
    nextItem false (',' :: (l.lineBreak depth ++ j.write l depth rest)) =
      .ok (some (j.write l depth rest)) := by
  obtain ⟨c, tail, hw, hspace, hbracket, -⟩ := write_eq_cons l depth j rest
  rw [hw, nextItem, skipSpace_cons (by decide)]
  dsimp only
  rw [if_neg (by decide), if_neg (by decide), if_pos rfl,
    skipSpace_blank (hl.lineBreak depth) hspace]
  exact if_neg hbracket

theorem gives_writeItems (hl : l.Blank) {js : List Json} {values : List α}
    (h : List.Forall₂ (Reads item) js values) :
    Gives (listItems item false (writeItems l (depth + 1) js (l.lineBreak depth ++ ']' :: rest)))
      values rest := by
  induction h with
  | nil =>
    rw [writeItems]
    exact gives_listItems_end (skipSpace_blank (hl.lineBreak depth) (by decide))
  | @cons j value js values hvalue _ ih =>
    rw [writeItems]
    exact gives_listItems_next (nextItem_comma hl j)
      (hvalue l hl (depth + 1) [] _ blank_nil (numberEnds_writeItems hl js)) ih

/-- The text of a list is read item by item. -/
theorem gives_listBody (hl : l.Blank) {js : List Json} {values : List α}
    (h : List.Forall₂ (Reads item) js values) :
    ∃ tail, (Json.array js).write l depth rest = '[' :: tail ∧
      Gives (listBody item tail) values rest := by
  cases h with
  | nil => exact ⟨_, by rw [write], gives_listItems_end (skipSpace_cons (by decide))⟩
  | @cons j value js values hvalue hvalues =>
    refine ⟨_, by rw [write], ?_⟩
    exact gives_listItems_next (nextItem_first hl j)
      (hvalue l hl (depth + 1) [] _ blank_nil (numberEnds_writeItems hl js))
      (gives_writeItems hl hvalues)

/-! ## Objects -/

/-- The reader of what follows a key gets `value` from a colon and the text of `j`. -/
def ReadsMember (r : Reader σ) (j : Json) (value : σ) : Prop :=
  ∀ l : Layout, l.Blank → ∀ (depth : Nat) (rest : List Char), NumberEnds rest →
    Gives (r (':' :: (l.afterColon ++ j.write l depth rest))) value rest

theorem Reads.afterColon {r : Reader α} {j : Json} {value : α} (h : Reads r j value) :
    ReadsMember (afterColon r) j value :=
  fun l hl depth rest hr => gives_afterColon (h l hl depth _ rest hl.afterColon hr)

theorem ReadsMember.map {r : Reader α} {j : Json} {value : α} (f : α → β)
    (h : ReadsMember r j value) : ReadsMember (r.map f) j (f value) :=
  fun l hl depth rest hr => (h l hl depth rest hr).map

/-- Reading the members one after the other leads from one state to another. -/
inductive Steps (step : σ → String → Reader σ) : σ → List (String × Json) → σ → Prop
  | nil (s : σ) : Steps step s [] s
  | cons {s t u : σ} {k : String} {j : Json} {ms : List (String × Json)}
      (head : ReadsMember (step s k) j t) (tail : Steps step t ms u) :
      Steps step s ((k, j) :: ms) u

theorem Steps.append {step : σ → String → Reader σ} {s t u : σ} {ms ns : List (String × Json)}
    (h : Steps step s ms t) (h' : Steps step t ns u) : Steps step s (ms ++ ns) u := by
  induction h with
  | nil => exact h'
  | cons head _ ih => exact .cons head (ih h')

/-- Steps inside a larger state. -/
theorem Steps.lift {τ : Type} {step : σ → String → Reader σ} {step' : τ → String → Reader τ}
    {s t : σ} {ms : List (String × Json)} (f : σ → τ) (h : Steps step s ms t)
    (hstep : ∀ s, ∀ m ∈ ms, step' (f s) m.1 = (step s m.1).map f) :
    Steps step' (f s) ms (f t) := by
  induction h with
  | nil => exact .nil _
  | @cons s t u k j ms head _ ih =>
    refine .cons ?_ (ih fun s m hm => hstep s m (List.mem_cons_of_mem _ hm))
    rw [hstep s (k, j) (List.mem_cons_self ..)]
    exact head.map f

variable {step : σ → String → Reader σ} {finish : σ → Except Fault α}

theorem gives_endObject {cs : List Char} (h : skipSpace cs = '\x7d' :: rest) :
    Gives (endObject cs) () rest := by
  unfold endObject
  split
  · rename_i hnil
    rw [h] at hnil
    cases hnil
  · rename_i hcons
    rw [h] at hcons
    cases hcons
    exact ⟨_, if_pos rfl⟩

theorem gives_objectMembers_end {first : Bool} {cs : List Char} {s : σ} {a : α}
    (h : skipSpace cs = '\x7d' :: rest) (ha : finish s = .ok a) :
    Gives (objectMembers step finish first s cs) a rest := by
  have hn : nextKey first cs = .ok none := by
    rw [nextKey, h]
    exact if_pos rfl
  rw [objectMembers.eq_def]
  split
  · rename_i hnext
    rw [hn] at hnext
    cases hnext
  · rw [ha]
    exact (gives_endObject h).map
  · rename_i hnext
    rw [hn] at hnext
    cases hnext

theorem gives_objectMembers_next {first : Bool} {cs start mid : List Char} {s t : σ} {a : α}
    (hn : nextKey first cs = .ok (some start)) (hmember : Gives (member step s start) t mid)
    (hmembers : Gives (objectMembers step finish false t mid) a rest) :
    Gives (objectMembers step finish first s cs) a rest := by
  obtain ⟨_, hmember⟩ := hmember
  obtain ⟨_, hmembers⟩ := hmembers
  rw [objectMembers.eq_def]
  split
  · rename_i hnext
    rw [hn] at hnext
    cases hnext
  · rename_i hnext
    rw [hn] at hnext
    cases hnext
  · rename_i start' hnext
    rw [hn] at hnext
    cases hnext
    rw [hmember]
    dsimp only
    rw [hmembers]
    exact ⟨_, rfl⟩

/-- The text of a key behind its opening quote. -/
def keyTail (l : Layout) (key : String) (rest : List Char) : List Char :=
  key.toList.flatMap escape ++ '"' :: ':' :: (l.afterColon ++ rest)

theorem writeKey_eq_cons (l : Layout) (key : String) (rest : List Char) :
    writeKey l key rest = '"' :: keyTail l key rest := by
  rw [writeKey, quoteChars_append, keyTail]

theorem nextKey_first (hl : l.Blank) (key : String) :
    nextKey true (l.lineBreak depth ++ writeKey l key rest) = .ok (some (keyTail l key rest)) := by
  rw [writeKey_eq_cons, nextKey, skipSpace_blank (hl.lineBreak depth) (by decide)]
  rfl

theorem nextKey_comma (hl : l.Blank) (key : String) :
    nextKey false (',' :: (l.lineBreak depth ++ writeKey l key rest)) =
      .ok (some (keyTail l key rest)) := by
  rw [writeKey_eq_cons, nextKey, skipSpace_cons (by decide)]
  dsimp only
  rw [if_neg (by decide), if_neg (by decide), if_pos rfl,
    skipSpace_blank (hl.lineBreak depth) (by decide)]
  rfl

theorem gives_member {s t : σ} {k : String} {j : Json} (h : ReadsMember (step s k) j t)
    (hl : l.Blank) (hr : NumberEnds rest) :
    Gives (member step s (keyTail l k (j.write l depth rest))) t rest := by
  obtain ⟨_, hkey⟩ := gives_string k (':' :: (l.afterColon ++ j.write l depth rest))
  obtain ⟨_, hvalue⟩ := h l hl depth rest hr
  unfold member keyTail
  rw [hkey]
  dsimp only
  rw [hvalue]
  exact ⟨_, rfl⟩

/-- Behind the value of a member stands no part of a number. -/
theorem numberEnds_writeMembers (hl : l.Blank) (ms : List (String × Json)) :
    NumberEnds (writeMembers l (depth + 1) ms (l.lineBreak depth ++ '\x7d' :: rest)) := by
  cases ms with
  | nil =>
    rw [writeMembers]
    exact numberEnds_blank (hl.lineBreak depth) (numberEnds_cons _ (by decide))
  | cons m ms =>
    rw [writeMembers]
    exact numberEnds_cons _ (by decide)

theorem gives_writeMembers (hl : l.Blank) {s t : σ} {ms : List (String × Json)} {a : α}
    (h : Steps step s ms t) (ha : finish t = .ok a) :
    Gives (objectMembers step finish false s
      (writeMembers l (depth + 1) ms (l.lineBreak depth ++ '\x7d' :: rest))) a rest := by
  induction h with
  | nil =>
    rw [writeMembers]
    exact gives_objectMembers_end (skipSpace_blank (hl.lineBreak depth) (by decide)) ha
  | @cons s t u k j ms head _ ih =>
    rw [writeMembers]
    exact gives_objectMembers_next (nextKey_comma hl k)
      (gives_member head hl (numberEnds_writeMembers hl ms)) (ih ha)

/-- The text of an object is read member by member. -/
theorem gives_objectBody (hl : l.Blank) {s t : σ} {ms : List (String × Json)} {a : α}
    (h : Steps step s ms t) (ha : finish t = .ok a) :
    ∃ tail, (Json.object ms).write l depth rest = '\x7b' :: tail ∧
      Gives (objectBody step finish s tail) a rest := by
  cases h with
  | nil => exact ⟨_, by rw [write], gives_objectMembers_end (skipSpace_cons (by decide)) ha⟩
  | @cons _ t _ k j ms head tail =>
    refine ⟨_, by rw [write], ?_⟩
    exact gives_objectMembers_next (nextKey_first hl k)
      (gives_member head hl (numberEnds_writeMembers hl ms)) (gives_writeMembers hl tail ha)

/-- Members with new keys are appended to what has been read. -/
theorem steps_insert {entry : Reader α} {ms : List (String × Json)} {values d : Dict α}
    (h : List.Forall₂ (fun m v => m.1 = v.1 ∧ Reads entry m.2 v.2) ms values)
    (hnodup : (Dict.keys (d ++ values)).Nodup) :
    Steps (fun d key => (afterColon entry).map (Dict.insert d key)) d ms (d ++ values) := by
  induction h generalizing d with
  | nil =>
    rw [List.append_nil]
    exact .nil d
  | @cons m v ms values hmember _ ih =>
    obtain ⟨k, j⟩ := m
    obtain ⟨k', value⟩ := v
    obtain ⟨rfl, hvalue⟩ : k = k' ∧ Reads entry j value := hmember
    -- no key comes twice, so this one is new and the insertion appends it
    have hnew : k ∉ Dict.keys d := by
      simp only [Dict.keys, List.map_append, List.map_cons, List.nodup_append] at hnodup
      exact fun hk => hnodup.2.2 _ hk _ (List.mem_cons_self ..) rfl
    have hassoc : d ++ (k, value) :: values = d ++ [(k, value)] ++ values := by
      rw [List.append_assoc]
      rfl
    rw [hassoc] at hnodup ⊢
    refine .cons ?_ (ih hnodup)
    rw [← Dict.insert_eq_append hnew value]
    exact hvalue.afterColon.map _

theorem gives_dictBody (hl : l.Blank) {entry : Reader α} {ms : List (String × Json)}
    {values : Dict α} (h : List.Forall₂ (fun m v => m.1 = v.1 ∧ Reads entry m.2 v.2) ms values)
    (hnodup : (Dict.keys values).Nodup) :
    ∃ tail, (Json.object ms).write l depth rest = '\x7b' :: tail ∧
      Gives (dictBody entry tail) values rest :=
  gives_objectBody hl (steps_insert (d := []) h hnodup) rfl

/-! ## Values -/

/-- A text is read by its first token. -/
theorem reads_byFirst {read : (c : Char) → (rest : List Char) → Except Fault (Parsed α (c :: rest))}
    {j : Json} {value : α}
    (h : ∀ l : Layout, l.Blank → ∀ (depth : Nat) (rest : List Char), NumberEnds rest →
      ∃ c tail, j.write l depth rest = c :: tail ∧ Gives (read c tail) value rest) :
    Reads (byFirst read) j value := by
  intro l hl depth blanks rest hb hr
  obtain ⟨c, tail, hw, hread⟩ := h l hl depth rest hr
  obtain ⟨c', tail', hw', hspace, -⟩ := write_eq_cons l depth j rest
  obtain ⟨rfl, rfl⟩ := List.cons.inj (hw.symm.trans hw')
  rw [hw]
  exact gives_byFirst (skipSpace_blank hb hspace) hread

theorem reads_json_null (limit : Nat) : Reads (readJson limit) .null .null := by
  unfold readJson
  refine reads_byFirst fun l hl depth rest _ => ⟨'n', _, by rw [write], ?_⟩
  exact gives_wordAfter 'n' ['u', 'l', 'l'] _ rest

theorem reads_json_bool (limit : Nat) (b : Bool) :
    Reads (readJson limit) (.bool b) (.bool b) := by
  unfold readJson
  refine reads_byFirst fun l hl depth rest _ => ?_
  cases b with
  | true => exact ⟨'t', _, rfl, gives_wordAfter 't' ['r', 'u', 'e'] _ rest⟩
  | false => exact ⟨'f', _, rfl, gives_wordAfter 'f' ['a', 'l', 's', 'e'] _ rest⟩

theorem reads_json_string (limit : Nat) (s : String) :
    Reads (readJson limit) (.string s) (.string s) := by
  unfold readJson
  refine reads_byFirst fun l hl depth rest _ => ⟨'"', _, by rw [write, quoteChars_append], ?_⟩
  exact gives_behind (gives_string s rest).map

theorem reads_json_number {limit : Nat} {x : Number} (hx : ∀ f ∈ numberFloats x, f.ReadsBack) :
    Reads (readJson limit) (.number x) (.number x) := by
  unfold readJson
  refine reads_byFirst fun l hl depth rest hr => ?_
  obtain ⟨c, tail, hc, hstart⟩ := numberChars_eq_cons x
  obtain ⟨-, -, hn, ht, hf, hq⟩ := numberStart_of_startsNumber hstart
  have hread := gives_number hx hr
  rw [hc, List.cons_append] at hread
  refine ⟨c, tail ++ rest, by rw [write, hc, List.cons_append], ?_⟩
  rw [if_neg hn, if_neg ht, if_neg hf, if_neg hq, if_pos hstart]
  exact hread.map

theorem reads_json_array {n : Nat} {js : List Json}
    (h : List.Forall₂ (Reads (readJson n)) js js) :
    Reads (readJson (n + 1)) (.array js) (.array js) := by
  unfold readJson
  refine reads_byFirst fun l hl depth rest _ => ?_
  obtain ⟨tail, hw, hbody⟩ := gives_listBody hl h
  exact ⟨'[', tail, hw, gives_behind hbody.map⟩

theorem reads_json_object {n : Nat} {ms : List (String × Json)}
    (h : List.Forall₂ (fun m v => m.1 = v.1 ∧ Reads (readJson n) m.2 v.2) ms ms)
    (hnodup : (Dict.keys ms).Nodup) : Reads (readJson (n + 1)) (.object ms) (.object ms) := by
  unfold readJson
  refine reads_byFirst fun l hl depth rest _ => ?_
  obtain ⟨tail, hw, hbody⟩ := gives_dictBody hl h hnodup
  exact ⟨'\x7b', tail, hw, gives_behind hbody.map⟩

mutual

/-- A value whose objects have every key once is read back from its text. -/
theorem reads_json {limit : Nat} : (j : Json) → j.KeysOnce → j.Legible limit →
    Reads (readJson limit) j j
  | .null, _, _ => reads_json_null limit
  | .bool b, _, _ => reads_json_bool limit b
  | .number _, _, h => reads_json_number h.floats
  | .string s, _, _ => reads_json_string limit s
  | .array js, hkeys, h => by
    obtain ⟨n, rfl, hitems⟩ := h.items
    rw [KeysOnce, itemsKeysOnce_iff] at hkeys
    exact reads_json_array (reads_items js hkeys hitems)
  | .object ms, hkeys, h => by
    obtain ⟨n, rfl, hmembers⟩ := h.members
    rw [KeysOnce, membersKeysOnce_iff] at hkeys
    exact reads_json_object (reads_members ms hkeys.2 hmembers) hkeys.1

theorem reads_items {limit : Nat} : (js : List Json) → (∀ j ∈ js, j.KeysOnce) →
    (∀ j ∈ js, j.Legible limit) → List.Forall₂ (Reads (readJson limit)) js js
  | [], _, _ => .nil
  | j :: js, hkeys, h =>
    .cons (reads_json j (hkeys j (List.mem_cons_self ..)) (h j (List.mem_cons_self ..)))
      (reads_items js (fun i hi => hkeys i (List.mem_cons_of_mem _ hi))
        fun i hi => h i (List.mem_cons_of_mem _ hi))

theorem reads_members {limit : Nat} : (ms : List (String × Json)) → (∀ m ∈ ms, m.2.KeysOnce) →
    (∀ m ∈ ms, m.2.Legible limit) →
    List.Forall₂ (fun m v => m.1 = v.1 ∧ Reads (readJson limit) m.2 v.2) ms ms
  | [], _, _ => .nil
  | (k, j) :: ms, hkeys, h =>
    .cons ⟨rfl, reads_json j (hkeys (k, j) (List.mem_cons_self ..))
        (h (k, j) (List.mem_cons_self ..))⟩
      (reads_members ms (fun m hm => hkeys m (List.mem_cons_of_mem _ hm))
        fun m hm => h m (List.mem_cons_of_mem _ hm))

end

/-! ## Whole texts -/

theorem readText_of_gives {r : Reader α} {text : String} {value : α}
    (h : Gives (r text.toList) value []) : readText r text = .ok value := by
  obtain ⟨_, h⟩ := h
  unfold readText
  rw [h]
  rfl

/-- What reads the text of a value reads it as a whole text. -/
theorem readText_of_reads {r : Reader α} {j : Json} {value : α} (h : Reads r j value) :
    readText r j.compact = .ok value ∧ readText r j.indented = .ok value := by
  have htext {l : Layout} (hl : l.Blank) :
      readText r (String.ofList (j.write l 0 [])) = .ok value := by
    have hread : Gives (r (j.write l 0 [])) value [] := h l hl 0 [] [] blank_nil numberEnds_nil
    rw [← String.toList_ofList (l := j.write l 0 [])] at hread
    exact readText_of_gives hread
  exact ⟨htext Layout.compact_blank, htext Layout.indented_blank⟩

end Json
end StepGraph
