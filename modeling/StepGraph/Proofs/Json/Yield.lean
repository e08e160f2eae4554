import StepGraph.Json.Value
import StepGraph.Proofs.Json.Legible

/-!
# What readers can give

`Yields r P` says that every value which the reader `r` gives satisfies `P`, whatever the text is.
A loop over items or members yields what its single steps preserve (`yields_listBody`,
`yields_objectBody`).

* `Regular limit j`: `j` has every key once and nests at most `limit` containers.
* `yields_readJson`: any value that is read is regular, so no key of a text is kept twice and no
  value is deeper than its text may be.
-/

namespace StepGraph
namespace Json

variable {α β σ : Type} {P : α → Prop} {Q : β → Prop}

/-- If reading went well, its value satisfies `P`. -/
def Ensures {cs : List Char} (result : Except Fault (Parsed α cs)) (P : α → Prop) : Prop :=
  ∀ p, result = .ok p → P p.value

/-- Every value that the reader gives satisfies `P`. -/
def Yields (r : Reader α) (P : α → Prop) : Prop := ∀ cs, Ensures (r cs) P

/-! ## Readers made from readers -/

section

variable {cs : List Char} {r : Reader α}

theorem ensures_true (result : Except Fault (Parsed α cs)) : Ensures result fun _ => True :=
  fun _ _ => trivial

theorem ensures_error (e : Fault) : Ensures (.error e : Except Fault (Parsed α cs)) P := nofun

theorem Ensures.imp {result : Except Fault (Parsed α cs)} {R : α → Prop} (h : Ensures result P)
    (hP : ∀ a, P a → R a) : Ensures result R :=
  fun p hp => hP _ (h p hp)

theorem Ensures.map {f : α → β} (h : Ensures (r cs) P) (hf : ∀ a, P a → Q (f a)) :
    Ensures (r.map f cs) Q := by
  intro p hp
  unfold Reader.map at hp
  split at hp
  · rename_i q hq
    cases hp
    exact hf _ (h q hq)
  · cases hp

theorem Yields.map {f : α → β} (h : Yields r P) (hf : ∀ a, P a → Q (f a)) :
    Yields (r.map f) Q :=
  fun cs => (h cs).map hf

theorem ensures_behind (c : Char) (h : Ensures (r cs) P) : Ensures (behind c r cs) P := by
  intro p hp
  unfold behind at hp
  split at hp
  · cases hp
  · rename_i q hq
    cases hp
    exact h q hq

theorem ensures_wordAfter {first : Char} {letters : List Char} {value : α} (h : P value) :
    Ensures (wordAfter first letters value cs) P := by
  intro p hp
  unfold wordAfter at hp
  split at hp
  · cases hp
    exact h
  · cases hp

/-- The first character that is no space decides what is read. -/
theorem ensures_byFirst
    {read : (c : Char) → (rest : List Char) → Except Fault (Parsed α (c :: rest))}
    (h : ∀ c rest, skipSpace cs = c :: rest → Ensures (read c rest) P) :
    Ensures (byFirst read cs) P := by
  intro p hp
  unfold byFirst at hp
  split at hp
  · cases hp
  · rename_i c rest hs
    split at hp
    · cases hp
    · rename_i q hq
      cases hp
      exact h c rest hs q hq

theorem yields_byFirst
    {read : (c : Char) → (rest : List Char) → Except Fault (Parsed α (c :: rest))}
    (h : ∀ c rest, Ensures (read c rest) P) : Yields (byFirst read) P :=
  fun _ => ensures_byFirst fun c rest _ => h c rest

theorem yields_afterColon (h : Yields r P) : Yields (afterColon r) P := by
  intro cs p hp
  unfold afterColon at hp
  split at hp
  · cases hp
  · split at hp
    · cases hp
    · rename_i q hq
      cases hp
      exact h _ q hq

end

/-! ## Lists and objects -/

/-- Items that satisfy `P` make a list of such items. -/
theorem yields_listItems {item : Reader α} (h : Yields item P) (first : Bool) :
    Yields (listItems item first) fun values => ∀ v ∈ values, P v := by
  intro cs
  induction hn : cs.length using Nat.strongRecOn generalizing first cs with
  | ind n ih =>
    subst hn
    intro p hp
    rw [listItems.eq_def] at hp
    split at hp
    · cases hp
    · have hend : Ensures ((endList.map fun _ => ([] : List α)) cs) fun values =>
          ∀ v ∈ values, P v :=
        .map (ensures_true _) fun _ _ => List.forall_mem_nil P
      exact hend p hp
    · rename_i start hnext
      split at hp
      · cases hp
      · rename_i x hx
        split at hp
        · cases hp
        · rename_i xs hxs
          cases hp
          have hshort : x.rest.length < cs.length :=
            Nat.lt_of_lt_of_le x.shorter (length_le_of_nextItem hnext)
          exact List.forall_mem_cons.mpr ⟨h start x hx, ih _ hshort false x.rest rfl xs hxs⟩

theorem yields_listBody {item : Reader α} (h : Yields item P) :
    Yields (listBody item) fun values => ∀ v ∈ values, P v :=
  yields_listItems h true

variable {step : σ → String → Reader σ} {finish : σ → Except Fault α} {I : σ → Prop}

/-- Members that preserve `I` lead to a state that satisfies `I`, and the result is made from it. -/
theorem ensures_objectMembers (hstep : ∀ s k, I s → Yields (step s k) I)
    (hfinish : ∀ s a, I s → finish s = .ok a → P a) (first : Bool) (cs : List Char) {s : σ}
    (hs : I s) : Ensures (objectMembers step finish first s cs) P := by
  induction hn : cs.length using Nat.strongRecOn generalizing first cs s with
  | ind n ih =>
    subst hn
    intro p hp
    rw [objectMembers.eq_def] at hp
    split at hp
    · cases hp
    · split at hp
      · cases hp
      · rename_i a ha
        have hend : Ensures ((endObject.map fun _ => a) cs) P :=
          .map (ensures_true _) fun _ _ => hfinish s a hs ha
        exact hend p hp
    · rename_i start hnext
      split at hp
      · cases hp
      · rename_i m hm
        split at hp
        · cases hp
        · rename_i result hresult
          cases hp
          have hshort : m.rest.length < cs.length :=
            Nat.lt_trans m.shorter (length_lt_of_nextKey hnext)
          have hmember : I m.value := by
            unfold member at hm
            split at hm
            · cases hm
            · split at hm
              · cases hm
              · rename_i next hstate
                cases hm
                exact hstep s _ hs _ next hstate
          exact ih _ hshort false m.rest hmember rfl result hresult

theorem yields_objectBody (hstep : ∀ s k, I s → Yields (step s k) I)
    (hfinish : ∀ s a, I s → finish s = .ok a → P a) {s : σ} (hs : I s) :
    Yields (objectBody step finish s) P :=
  fun cs => ensures_objectMembers hstep hfinish true cs hs

/-- A key that comes again takes the new value, so no key is there twice. -/
theorem yields_dictBody {entry : Reader α} (h : Yields entry P) :
    Yields (dictBody entry) fun d => (Dict.keys d).Nodup ∧ ∀ m ∈ d, P m.2 := by
  refine yields_objectBody ?_ (fun d _ hd ha => Except.ok.inj ha ▸ hd) ⟨List.nodup_nil, nofun⟩
  intro d key ⟨hnodup, hd⟩
  refine (yields_afterColon h).map fun value hvalue => ?_
  exact ⟨Dict.keys_insert_nodup hnodup key value, Dict.forall_mem_insert hd hvalue⟩

/-! ## Any value -/

/-- The value has every key once and nests at most `limit` containers. -/
structure Regular (limit : Nat) (j : Json) : Prop where
  keysOnce : j.KeysOnce
  depth_le : j.depth ≤ limit

theorem itemsDepth_le {n : Nat} {js : List Json} (h : ∀ j ∈ js, j.depth ≤ n) :
    itemsDepth js ≤ n := by
  induction js with
  | nil => exact Nat.zero_le n
  | cons j js ih =>
    obtain ⟨hj, hjs⟩ := List.forall_mem_cons.mp h
    exact Nat.max_le.mpr ⟨hj, ih hjs⟩

/-- A list nests one container more than its items. -/
theorem depth_array_le {n : Nat} {js : List Json} (h : ∀ j ∈ js, j.depth ≤ n) :
    (array js).depth ≤ n + 1 := by
  rw [depth]
  exact Nat.succ_le_succ (itemsDepth_le h)

/-- An object nests one container more than its values. -/
theorem depth_object_le {n : Nat} {ms : List (String × Json)} (h : ∀ m ∈ ms, m.2.depth ≤ n) :
    (object ms).depth ≤ n + 1 := by
  rw [depth_object]
  refine depth_array_le fun j hj => ?_
  obtain ⟨m, hm, rfl⟩ := List.mem_map.mp hj
  exact h m hm

theorem regular_array {n : Nat} {js : List Json} (h : ∀ j ∈ js, Regular n j) :
    Regular (n + 1) (.array js) where
  keysOnce := by
    rw [KeysOnce, itemsKeysOnce_iff]
    exact fun j hj => (h j hj).keysOnce
  depth_le := depth_array_le fun j hj => (h j hj).depth_le

theorem regular_object {n : Nat} {ms : List (String × Json)} (hnodup : (Dict.keys ms).Nodup)
    (h : ∀ m ∈ ms, Regular n m.2) : Regular (n + 1) (.object ms) where
  keysOnce := by
    rw [KeysOnce, membersKeysOnce_iff]
    exact ⟨hnodup, fun m hm => (h m hm).keysOnce⟩
  depth_le := depth_object_le fun m hm => (h m hm).depth_le

/-- A value without a container is regular everywhere. -/
theorem regular_of_depth_eq_zero {limit : Nat} {j : Json} (hkeys : j.KeysOnce) (h : j.depth = 0) :
    Regular limit j :=
  ⟨hkeys, h ▸ Nat.zero_le limit⟩

/-- Any value that is read is regular, and it is `null` only where the text starts with an `n`. -/
theorem ensures_readJson (limit : Nat) (cs : List Char) :
    Ensures (readJson limit cs) fun j =>
      Regular limit j ∧ (j = .null → (skipSpace cs).head? = some 'n') := by
  induction limit using Nat.strongRecOn generalizing cs with
  | ind limit ih =>
    rw [readJson.eq_def]
    refine ensures_byFirst fun c rest hs => ?_
    rw [hs, List.head?_cons]
    have hscalar {j : Json} (hkeys : j.KeysOnce) (hdepth : j.depth = 0) (hj : j ≠ .null) :
        Regular limit j ∧ (j = .null → some c = some 'n') :=
      ⟨regular_of_depth_eq_zero hkeys hdepth, fun h => absurd h hj⟩
    split
    · rename_i hc
      exact ensures_wordAfter ⟨regular_of_depth_eq_zero trivial rfl, fun _ => congrArg some hc⟩
    split
    · exact ensures_wordAfter (hscalar trivial rfl nofun)
    split
    · exact ensures_wordAfter (hscalar trivial rfl nofun)
    split
    · exact ensures_behind c (.map (ensures_true _) fun _ _ => hscalar trivial rfl nofun)
    split
    · exact .map (ensures_true _) fun _ _ => hscalar trivial rfl nofun
    split
    · split
      · exact ensures_error _
      · rename_i n
        have hitems : Yields (listBody (readJson n)) fun js => ∀ j ∈ js, Regular n j :=
          yields_listBody fun cs => (ih n (Nat.lt_succ_self n) cs).imp fun _ h => h.1
        exact ensures_behind c (.map (hitems rest) fun js hjs => ⟨regular_array hjs, nofun⟩)
    split
    · split
      · exact ensures_error _
      · rename_i n
        have hmembers : Yields (dictBody (readJson n)) fun ms =>
            (Dict.keys ms).Nodup ∧ ∀ m ∈ ms, Regular n m.2 :=
          yields_dictBody fun cs => (ih n (Nat.lt_succ_self n) cs).imp fun _ h => h.1
        exact ensures_behind c (.map (hmembers rest) fun ms hms =>
          ⟨regular_object hms.1 hms.2, nofun⟩)
    · exact ensures_error _

/-- Any value that is read has every key once and nests no deeper than its text may. -/
theorem yields_readJson (limit : Nat) : Yields (readJson limit) (Regular limit) :=
  fun cs => (ensures_readJson limit cs).imp fun _ h => h.1

/-- A whole text has the value that its reader gives. -/
theorem Yields.of_readText {r : Reader α} (h : Yields r P) {text : String} {value : α}
    (ht : readText r text = .ok value) : P value := by
  unfold readText at ht
  split at ht
  · cases ht
  · rename_i p hp
    split at ht
    · cases ht
      exact h text.toList p hp
    · cases ht

end Json
end StepGraph
