import StepGraph.Proofs.Json.Denotation
import StepGraph.Proofs.Json.FloatText
import StepGraph.Proofs.Json.Same

/-!
# What written texts denote

The text of a value denotes the value with one member for each key (`written_json`), wherever it
nests deep enough, and whether its floats are read back or not. So what any reader gets from a text
that was written is known up to what is read from the text of each number (`Rereads`).

* `readsBack_of_rereads`: a float is read back if an equal one is read from its text.
-/

namespace StepGraph
namespace Json

variable {limit : Nat}

/-! ## Numbers -/

/-- The second number is read from the text of the first. -/
def Rereads (x y : Number) : Prop := Gives (readNumber (numberChars x)) y []

/-- Numbers stand for those whose text they are. -/
def writeSense : Sense Number := fun cs x rest => cs = numberChars x ++ rest ∧ NumberEnds rest

theorem gives_read_numberChars (x : Number) : ∃ n, Gives (Numeral.read (numberChars x)) n [] := by
  cases x with
  | integer n _ => exact ⟨_, gives_read_intChars n⟩
  | float x =>
    obtain ⟨n, hn, -⟩ := gives_read_jsonChars x
    exact ⟨n, hn⟩

theorem readAs_writeSense : ReadAs writeSense Rereads where
  numeral := by
    rintro _ x rest ⟨rfl, hr⟩
    obtain ⟨n, hn⟩ := gives_read_numberChars x
    exact ⟨n, Numeral.gives_read_append hr hn⟩
  value := by
    rintro _ x rest y rest' ⟨rfl, hr⟩ hy
    obtain ⟨n, hn⟩ := gives_read_numberChars x
    obtain ⟨n', hn', hy⟩ := gives_readNumber_iff.mp hy
    obtain ⟨rfl, -⟩ := hn'.unique (Numeral.gives_read_append hr hn)
    exact gives_readNumber_iff.mpr ⟨n', hn, hy⟩

/-- The text of a float is not taken for an integer. -/
theorem Rereads.eq_float {x : Finite64} {y : Number} (h : Rereads (.float x) y) :
    ∃ z, y = .float z := by
  obtain ⟨n, hn, hfloat⟩ := gives_read_jsonChars x
  obtain ⟨n', hn', hy⟩ := gives_readNumber_iff.mp h
  obtain ⟨rfl, -⟩ := hn'.unique hn
  exact Numeral.value_of_isFloat hfloat hy

theorem zero_readsBack (negative : Bool) : Finite64.ReadsBack ⟨negative, .zero⟩ := by
  cases negative with
  | false =>
    have htext : Finite64.jsonChars ⟨false, .zero⟩ = ['0', '.', '0'] := by decide +kernel
    have hvalue : (⟨false, ['0'], ['0'], none⟩ : Numeral).value =
        .ok (.float ⟨false, .zero⟩) := by decide +kernel
    unfold Finite64.ReadsBack
    rw [htext]
    exact gives_readNumber_iff.mpr ⟨_, ⟨by decide, rfl⟩, hvalue⟩
  | true =>
    have htext : Finite64.jsonChars ⟨true, .zero⟩ = ['-', '0', '.', '0'] := by decide +kernel
    have hvalue : (⟨true, ['0'], ['0'], none⟩ : Numeral).value =
        .ok (.float ⟨true, .zero⟩) := by decide +kernel
    unfold Finite64.ReadsBack
    rw [htext]
    exact gives_readNumber_iff.mpr ⟨_, ⟨by decide, rfl⟩, hvalue⟩

/-- A float is read back if an equal one is read from its text. -/
theorem readsBack_of_rereads {x y : Finite64} (h : Rereads (.float x) (.float y))
    (hsame : x.sameValue y = true) : x.ReadsBack := by
  simp only [Finite64.sameValue, Bool.or_eq_true, Bool.and_eq_true, beq_iff_eq] at hsame
  rcases hsame with rfl | ⟨hzero, -⟩
  · exact h
  · obtain ⟨negative, number, finite⟩ := x
    obtain rfl : number = 0 := hzero
    exact zero_readsBack negative

/-! ## Values -/

/-- The text of `j` denotes `v`, in every layout. -/
def Written (D : Sense Json) (j v : Json) : Prop :=
  ∀ l : Layout, l.Blank → ∀ (depth : Nat) (blanks rest : List Char), Blank blanks →
    NumberEnds rest → D (blanks ++ j.write l depth rest) v rest

section

variable {D : Sense Json} {l : Layout} {depth : Nat} {rest : List Char}

theorem items_written (hl : l.Blank) {js vs : List Json} (h : List.Forall₂ (Written D) js vs) :
    Items D false (writeItems l (depth + 1) js (l.lineBreak depth ++ ']' :: rest)) vs rest := by
  induction h with
  | nil =>
    rw [writeItems]
    exact .done (skipSpace_blank (hl.lineBreak depth) (by decide))
  | @cons j v js vs hj _ ih =>
    rw [writeItems]
    exact .more (nextItem_comma hl j)
      (hj l hl (depth + 1) [] _ blank_nil (numberEnds_writeItems hl js)) ih

theorem members_written (hl : l.Blank) {ms vs : List (String × Json)}
    (h : Dict.Rel (Written D) ms vs) :
    Members D false (writeMembers l (depth + 1) ms (l.lineBreak depth ++ '\x7d' :: rest)) vs
      rest := by
  induction h with
  | nil =>
    rw [writeMembers]
    exact .done (skipSpace_blank (hl.lineBreak depth) (by decide))
  | @cons m v ms vs hm _ ih =>
    obtain ⟨k, j⟩ := m
    obtain ⟨k', v⟩ := v
    obtain ⟨rfl, hv⟩ : k = k' ∧ Written D j v := hm
    rw [writeMembers]
    exact .more (nextKey_comma hl k) (gives_string k _) (gives_colon _)
      (hv l hl (depth + 1) l.afterColon _ hl.afterColon (numberEnds_writeMembers hl ms)) ih

theorem null_written : Written (Denotes writeSense limit) .null .null := by
  intro l hl depth blanks rest hb hr
  rw [Denotes, write]
  exact skipSpace_blank hb (by decide)

theorem bool_written (b : Bool) : Written (Denotes writeSense limit) (.bool b) (.bool b) := by
  intro l hl depth blanks rest hb hr
  cases b with
  | true | false =>
    rw [Denotes, write]
    exact skipSpace_blank hb (by decide)

theorem number_written (x : Number) :
    Written (Denotes writeSense limit) (.number x) (.number x) := by
  intro l hl depth blanks rest hb hr
  obtain ⟨c, tail, hx, hc⟩ := numberChars_eq_cons x
  obtain ⟨hspace, -⟩ := numberStart_of_startsNumber hc
  rw [Denotes, write, hx, List.cons_append]
  refine ⟨c, tail ++ rest, skipSpace_blank hb hspace, hc, ?_, hr⟩
  rw [hx, List.cons_append]

theorem string_written (s : String) :
    Written (Denotes writeSense limit) (.string s) (.string s) := by
  intro l hl depth blanks rest hb hr
  rw [Denotes, write, quoteChars_append]
  exact ⟨_, skipSpace_blank hb (by decide), gives_string s rest⟩

theorem array_written {js vs : List Json}
    (h : List.Forall₂ (Written (Denotes writeSense limit)) js vs) :
    Written (Denotes writeSense (limit + 1)) (.array js) (.array vs) := by
  intro l hl depth blanks rest hb hr
  rw [Denotes]
  cases h with
  | nil =>
    rw [write]
    exact ⟨_, skipSpace_blank hb (by decide), .done (skipSpace_cons (by decide))⟩
  | @cons j v js vs hj hjs =>
    have hhead : Denotes writeSense limit _ v
        (writeItems l (depth + 1) js (l.lineBreak depth ++ ']' :: rest)) :=
      hj l hl (depth + 1) [] _ blank_nil (numberEnds_writeItems hl js)
    rw [write]
    exact ⟨_, skipSpace_blank hb (by decide),
      .more (nextItem_first hl j) hhead (items_written hl hjs)⟩

/-- The members that come first are those of the text, and the last one of each key counts. -/
theorem object_written {ms vs : List (String × Json)}
    (h : Dict.Rel (Written (Denotes writeSense limit)) ms vs) :
    Written (Denotes writeSense (limit + 1)) (.object ms) (.object (Dict.ofList vs)) := by
  intro l hl depth blanks rest hb hr
  rw [Denotes]
  cases h with
  | nil =>
    rw [write]
    exact ⟨_, [], skipSpace_blank hb (by decide), .done (skipSpace_cons (by decide)), rfl⟩
  | @cons m v ms vs hm hms =>
    obtain ⟨k, j⟩ := m
    obtain ⟨k', v⟩ := v
    obtain ⟨rfl, hv⟩ : k = k' ∧ Written (Denotes writeSense limit) j v := hm
    have hhead : Denotes writeSense limit _ v
        (writeMembers l (depth + 1) ms (l.lineBreak depth ++ '\x7d' :: rest)) :=
      hv l hl (depth + 1) l.afterColon _ hl.afterColon (numberEnds_writeMembers hl ms)
    rw [write]
    exact ⟨_, _, skipSpace_blank hb (by decide), .more (nextKey_first hl k) (gives_string k _)
      (gives_colon _) hhead (members_written hl hms), rfl⟩

end

mutual

/-- The text of a value denotes it, with the last one of the members of each key. -/
theorem written_json {limit : Nat} : (j : Json) → j.depth ≤ limit →
    Written (Denotes writeSense limit) j j.merged
  | .null, _ => null_written
  | .bool b, _ => bool_written b
  | .number x, _ => number_written x
  | .string s, _ => string_written s
  | .array js, h => by
    obtain ⟨n, rfl, hitems⟩ := depth_items h
    exact array_written (written_items js hitems)
  | .object ms, h => by
    obtain ⟨n, rfl, hmembers⟩ := depth_members h
    exact object_written (written_members ms hmembers)

theorem written_items {limit : Nat} : (js : List Json) → (∀ j ∈ js, j.depth ≤ limit) →
    List.Forall₂ (Written (Denotes writeSense limit)) js (mergedItems js)
  | [], _ => .nil
  | j :: js, h =>
    .cons (written_json j (h j (List.mem_cons_self ..)))
      (written_items js fun i hi => h i (List.mem_cons_of_mem _ hi))

theorem written_members {limit : Nat} : (ms : List (String × Json)) →
    (∀ m ∈ ms, m.2.depth ≤ limit) →
    Dict.Rel (Written (Denotes writeSense limit)) ms (mergedMembers ms)
  | [], _ => .nil
  | (k, j) :: ms, h =>
    .cons ⟨rfl, written_json j (h (k, j) (List.mem_cons_self ..))⟩
      (written_members ms fun m hm => h m (List.mem_cons_of_mem _ hm))

end

/-- The text of a value in either layout denotes it. -/
theorem denotes_text {j : Json} (h : j.depth ≤ limit) {text : String}
    (htext : text = j.compact ∨ text = j.indented) :
    Denotes writeSense limit text.toList j.merged [] := by
  have hwritten := written_json j h
  rcases htext with rfl | rfl
  · rw [compact, String.toList_ofList]
    exact hwritten .compact Layout.compact_blank 0 [] [] blank_nil numberEnds_nil
  · rw [indented, String.toList_ofList]
    exact hwritten .indented Layout.indented_blank 0 [] [] blank_nil numberEnds_nil

mutual

theorem merged_eq_self : (j : Json) → j.KeysOnce → j.merged = j
  | .null, _ | .bool _, _ | .number _, _ | .string _, _ => rfl
  | .array js, h => by
    rw [KeysOnce, itemsKeysOnce_iff] at h
    rw [merged, mergedItems_eq_self js h]
  | .object ms, h => by
    rw [KeysOnce, membersKeysOnce_iff] at h
    rw [merged, mergedMembers_eq_self ms h.2, Dict.ofList_eq_self h.1]

theorem mergedItems_eq_self : (js : List Json) → (∀ j ∈ js, j.KeysOnce) → mergedItems js = js
  | [], _ => rfl
  | j :: js, h => by
    obtain ⟨hj, hjs⟩ := List.forall_mem_cons.mp h
    rw [mergedItems, merged_eq_self j hj, mergedItems_eq_self js hjs]

theorem mergedMembers_eq_self : (ms : List (String × Json)) → (∀ m ∈ ms, m.2.KeysOnce) →
    mergedMembers ms = ms
  | [], _ => rfl
  | (k, j) :: ms, h => by
    obtain ⟨hj, hms⟩ := List.forall_mem_cons.mp h
    rw [mergedMembers, merged_eq_self j hj, mergedMembers_eq_self ms hms]

end

/-! ## Values read back -/

theorem number_readsBack_of_same {x y : Number} (h : Rereads x y) (hsame : x.same y = true) :
    ∀ z ∈ numberFloats x, z.ReadsBack := by
  cases x with
  | integer => exact List.forall_mem_nil _
  | float x =>
    cases y with
    | integer => cases hsame
    | float y => exact List.forall_mem_singleton.mpr (readsBack_of_rereads h hsame)

/-- A member that equals what was read under its key equals what was read from its text. -/
theorem exists_renumbered_of_same {ms vs : Dict Json} (hnodup : (Dict.keys ms).Nodup)
    (h : RenumberedMembers Rereads ms vs) (hsame : sameMembers ms vs = true) :
    ∀ m ∈ ms, ∃ v, Renumbered Rereads m.2 v ∧ m.2.same v = true := by
  intro m hm
  obtain ⟨v, hv, hmv⟩ := sameMembers_iff.mp hsame m hm
  have hrel := (renumberedMembers_iff.mp h).get? m.1
  rw [(Dict.get?_eq_some_iff hnodup).mpr hm, hv] at hrel
  cases hrel with
  | some hrel => exact ⟨v, hrel, hmv⟩

mutual

/-- If a value equals what is read from its text, its floats are read back. -/
theorem readsBack_of_same : (j : Json) → {v : Json} → j.KeysOnce → Renumbered Rereads j v →
    j.same v = true → ∀ x ∈ j.floats, x.ReadsBack
  | .null, _, _, _, _ | .bool _, _, _, _, _ | .string _, _, _, _, _ => List.forall_mem_nil _
  | .number x, _, _, h, hsame => by
    obtain ⟨y, rfl, hxy⟩ := h
    exact number_readsBack_of_same hxy hsame
  | .array js, _, hkeys, h, hsame => by
    obtain ⟨vs, rfl, h⟩ := h
    rw [KeysOnce, itemsKeysOnce_iff] at hkeys
    exact items_readBack_of_same js hkeys h hsame
  | .object ms, _, hkeys, h, hsame => by
    obtain ⟨vs, rfl, h⟩ := h
    rw [KeysOnce, membersKeysOnce_iff] at hkeys
    rw [same, Bool.and_eq_true] at hsame
    exact members_readBack_of_same ms hkeys.2 (exists_renumbered_of_same hkeys.1 h hsame.2)

theorem items_readBack_of_same : (js : List Json) → {vs : List Json} → (∀ j ∈ js, j.KeysOnce) →
    RenumberedItems Rereads js vs → sameItems js vs = true → ∀ x ∈ itemsFloats js, x.ReadsBack
  | [], _, _, _, _ => List.forall_mem_nil _
  | j :: js, _, hkeys, h, hsame => by
    obtain ⟨v, vs, rfl, hj, hjs⟩ := h
    obtain ⟨hkey, hkeys⟩ := List.forall_mem_cons.mp hkeys
    rw [sameItems, Bool.and_eq_true] at hsame
    rw [itemsFloats, List.forall_mem_append]
    exact ⟨readsBack_of_same j hkey hj hsame.1, items_readBack_of_same js hkeys hjs hsame.2⟩

theorem members_readBack_of_same : (ms : List (String × Json)) → (∀ m ∈ ms, m.2.KeysOnce) →
    (∀ m ∈ ms, ∃ v, Renumbered Rereads m.2 v ∧ m.2.same v = true) →
    ∀ x ∈ membersFloats ms, x.ReadsBack
  | [], _, _ => List.forall_mem_nil _
  | (_, j) :: ms, hkeys, h => by
    obtain ⟨hkey, hkeys⟩ := List.forall_mem_cons.mp hkeys
    obtain ⟨⟨v, hv, hsame⟩, h⟩ := List.forall_mem_cons.mp h
    rw [membersFloats, List.forall_mem_append]
    exact ⟨readsBack_of_same j hkey hv hsame, members_readBack_of_same ms hkeys h⟩

end

end Json
end StepGraph
