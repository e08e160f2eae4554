import StepGraph.Proofs.Dict
import StepGraph.Proofs.Json.RoundTrip

/-!
# What a text denotes

`Denotes N limit cs j rest` says that the text `cs` starts with the value `j`, which nests at most
`limit` containers, and goes on with `rest`. It says so token by token, without any reader; only
what a number stands for is left to a parameter `N`, so the same notion serves a text that was read
and a text that was written.

* `denotes_of_gives`: what is read off a text is what the text denotes.
* `Tracks D r R`: where the text denotes something by `D`, the reader `r` stops where this ends, and
  `R` relates it to what is read. So two readers of one text can be compared.
* `tracks_readJson`: any value is read as it is denoted, with its numbers as they are read.
-/

namespace StepGraph
namespace Json

variable {α β σ : Type}

/-- What texts start with: the text, the value and what follows it. -/
abbrev Sense (β : Type) := List Char → β → List Char → Prop

/-- The numbers are those that are read. -/
def readSense : Sense Number := fun cs x rest => Gives (readNumber cs) x rest

/-- Items up to the end of a list, all but the first behind a comma. -/
inductive Items (D : Sense Json) : Bool → Sense (List Json)
  | done {first : Bool} {cs rest : List Char} (hend : skipSpace cs = ']' :: rest) :
      Items D first cs [] rest
  | more {first : Bool} {cs start mid rest : List Char} {j : Json} {js : List Json}
      (hnext : nextItem first cs = .ok (some start)) (head : D start j mid)
      (tail : Items D false mid js rest) : Items D first cs (j :: js) rest

/-- Members up to the end of an object, all but the first behind a comma. -/
inductive Members (D : Sense Json) : Bool → Sense (List (String × Json))
  | done {first : Bool} {cs rest : List Char} (hend : skipSpace cs = '\x7d' :: rest) :
      Members D first cs [] rest
  | more {first : Bool} {cs start behindKey value mid rest : List Char} {key : String} {j : Json}
      {ms : List (String × Json)} (hnext : nextKey first cs = .ok (some start))
      (hkey : Gives (stringAfterQuote start) key behindKey)
      (hcolon : Gives (colon behindKey) () value) (head : D value j mid)
      (tail : Members D false mid ms rest) : Members D first cs ((key, j) :: ms) rest

/-- The text starts with the value, at most `limit` containers deep, and goes on with `rest`. An
object has the members of its text, the last one of each key. -/
def Denotes (N : Sense Number) : (limit : Nat) → Sense Json
  | _, cs, .null, rest => skipSpace cs = 'n' :: 'u' :: 'l' :: 'l' :: rest
  | _, cs, .bool true, rest => skipSpace cs = 't' :: 'r' :: 'u' :: 'e' :: rest
  | _, cs, .bool false, rest => skipSpace cs = 'f' :: 'a' :: 'l' :: 's' :: 'e' :: rest
  | _, cs, .number x, rest =>
    ∃ c tail, skipSpace cs = c :: tail ∧ startsNumber c = true ∧ N (c :: tail) x rest
  | _, cs, .string s, rest =>
    ∃ tail, skipSpace cs = '"' :: tail ∧ Gives (stringAfterQuote tail) s rest
  | limit + 1, cs, .array js, rest =>
    ∃ tail, skipSpace cs = '[' :: tail ∧ Items (Denotes N limit) true tail js rest
  | limit + 1, cs, .object ms, rest =>
    ∃ tail members, skipSpace cs = '\x7b' :: tail ∧
      Members (Denotes N limit) true tail members rest ∧ ms = Dict.ofList members
  | 0, _, .array _, _ | 0, _, .object _, _ => False

/-! ## Loops over items and members -/

variable {first : Bool} {cs rest rest' : List Char}

theorem nextItem_end (h : skipSpace cs = ']' :: rest) : nextItem first cs = .ok none := by
  rw [nextItem, h]
  exact if_pos rfl

theorem nextKey_end (h : skipSpace cs = '\x7d' :: rest) : nextKey first cs = .ok none := by
  rw [nextKey, h]
  exact if_pos rfl

theorem Gives.of_endList (h : Gives (endList cs) () rest) : skipSpace cs = ']' :: rest := by
  obtain ⟨_, h⟩ := h
  unfold endList at h
  split at h
  · cases h
  · rename_i c tail hs
    split at h
    · rename_i hc
      cases h
      rw [hs, hc]
    · split at h <;> cases h

theorem Gives.of_endObject (h : Gives (endObject cs) () rest) :
    skipSpace cs = '\x7d' :: rest := by
  obtain ⟨_, h⟩ := h
  unfold endObject at h
  split at h
  · cases h
  · rename_i c tail hs
    split at h
    · rename_i hc
      cases h
      rw [hs, hc]
    · split at h <;> cases h

/-- Items have been read to the end of the list, or one item and then the others. -/
theorem Gives.of_listItems {item : Reader α} {values : List α}
    (h : Gives (listItems item first cs) values rest) :
    (skipSpace cs = ']' :: rest ∧ values = []) ∨
    ∃ start value mid others, nextItem first cs = .ok (some start) ∧ start.length ≤ cs.length ∧
      Gives (item start) value mid ∧ Gives (listItems item false mid) others rest ∧
      values = value :: others := by
  obtain ⟨shorter, h⟩ := h
  rw [listItems.eq_def] at h
  split at h
  · cases h
  · obtain ⟨_, hend, rfl⟩ := Gives.of_map ⟨shorter, h⟩
    exact .inl ⟨hend.of_endList, rfl⟩
  · rename_i start hnext
    split at h
    · cases h
    · rename_i p hp
      split at h
      · cases h
      · rename_i q hq
        cases h
        exact .inr ⟨start, p.value, p.rest, q.value, hnext, length_le_of_nextItem hnext,
          gives_of_eq_ok hp, gives_of_eq_ok hq, rfl⟩

/-- Members have been read to the end of the object, or one member and then the others. -/
theorem Gives.of_objectMembers {step : σ → String → Reader σ} {finish : σ → Except Fault α}
    {state : σ} {a : α} (h : Gives (objectMembers step finish first state cs) a rest) :
    (skipSpace cs = '\x7d' :: rest ∧ finish state = .ok a) ∨
    ∃ start key behindKey next mid, nextKey first cs = .ok (some start) ∧
      Gives (stringAfterQuote start) key behindKey ∧ Gives (step state key behindKey) next mid ∧
      mid.length < cs.length ∧ Gives (objectMembers step finish false next mid) a rest := by
  obtain ⟨shorter, h⟩ := h
  rw [objectMembers.eq_def] at h
  split at h
  · cases h
  · split at h
    · cases h
    · rename_i a' ha
      obtain ⟨_, hend, rfl⟩ := Gives.of_map ⟨shorter, h⟩
      exact .inl ⟨hend.of_endObject, ha⟩
  · rename_i start hnext
    split at h
    · cases h
    · rename_i m hm
      split at h
      · cases h
      · rename_i q hq
        cases h
        have hshort : m.rest.length < cs.length :=
          Nat.lt_trans m.shorter (length_lt_of_nextKey hnext)
        unfold member at hm
        split at hm
        · cases hm
        · rename_i key hkey
          split at hm
          · cases hm
          · rename_i next hstep
            cases hm
            exact .inr ⟨start, key.value, key.rest, next.value, next.rest, hnext,
              gives_of_eq_ok hkey, gives_of_eq_ok hstep, hshort, gives_of_eq_ok hq⟩

/-! ## What is read is what the text denotes -/

variable {D : Sense Json} {item : Reader Json}

theorem items_of_gives (hitem : ∀ {cs j rest}, Gives (item cs) j rest → D cs j rest)
    {js : List Json} (h : Gives (listItems item first cs) js rest) : Items D first cs js rest := by
  induction hn : cs.length using Nat.strongRecOn generalizing first cs js with
  | ind n ih =>
    subst hn
    obtain ⟨hend, rfl⟩ | ⟨start, j, mid, others, hnext, hle, hj, hothers, rfl⟩ := h.of_listItems
    · exact .done hend
    · have hshort : mid.length < cs.length := Nat.lt_of_lt_of_le hj.1 hle
      exact .more hnext (hitem hj) (ih _ hshort hothers rfl)

theorem members_of_gives (hitem : ∀ {cs j rest}, Gives (item cs) j rest → D cs j rest)
    {d ms : Dict Json} (h : Gives (objectMembers
      (fun d key => (afterColon item).map (Dict.insert d key)) .ok first d cs) ms rest) :
    ∃ members, Members D first cs members rest ∧ ms = Dict.insertAll d members := by
  induction hn : cs.length using Nat.strongRecOn generalizing first cs d with
  | ind n ih =>
    subst hn
    obtain ⟨hend, hd⟩ | ⟨start, key, behindKey, next, mid, hnext, hkey, hstep, hshort, hothers⟩ :=
      h.of_objectMembers
    · exact ⟨[], .done hend, (Except.ok.inj hd).symm⟩
    · obtain ⟨j, hj, rfl⟩ := hstep.of_map
      obtain ⟨value, hcolon, hj⟩ := hj.of_afterColon
      obtain ⟨members, hmembers, rfl⟩ := ih _ hshort hothers rfl
      exact ⟨(key, j) :: members, .more hnext hkey hcolon (hitem hj) hmembers, rfl⟩

/-- What is read off a text is what the text denotes. -/
theorem denotes_of_gives {limit : Nat} {j : Json} (h : Gives (readJson limit cs) j rest) :
    Denotes readSense limit cs j rest := by
  induction limit using Nat.strongRecOn generalizing cs j rest with
  | ind limit ih =>
    rw [readJson.eq_def] at h
    obtain ⟨c, tail, hs, h⟩ := h.of_byFirst
    split at h
    · rename_i hc
      obtain ⟨rfl, rfl⟩ := h.of_wordAfter
      rw [Denotes, hs, hc]
      rfl
    split at h
    · rename_i hc
      obtain ⟨rfl, rfl⟩ := h.of_wordAfter
      rw [Denotes, hs, hc]
      rfl
    split at h
    · rename_i hc
      obtain ⟨rfl, rfl⟩ := h.of_wordAfter
      rw [Denotes, hs, hc]
      rfl
    split at h
    · rename_i hc
      obtain ⟨s, hstring, rfl⟩ := h.of_behind.of_map
      rw [Denotes]
      exact ⟨tail, hc ▸ hs, hstring⟩
    split at h
    · rename_i hc
      obtain ⟨x, hx, rfl⟩ := h.of_map
      rw [Denotes]
      exact ⟨c, tail, hs, hc, hx⟩
    split at h
    · rename_i hc
      split at h
      · obtain ⟨_, h⟩ := h
        cases h
      · rename_i n _
        obtain ⟨js, hitems, rfl⟩ := h.of_behind.of_map
        rw [Denotes]
        exact ⟨tail, hc ▸ hs, items_of_gives (fun h => ih n (Nat.lt_succ_self n) h) hitems⟩
    split at h
    · rename_i hc
      split at h
      · obtain ⟨_, h⟩ := h
        cases h
      · rename_i n _
        obtain ⟨ms, hbody, rfl⟩ := h.of_behind.of_map
        obtain ⟨members, hmembers, rfl⟩ :=
          members_of_gives (fun h => ih n (Nat.lt_succ_self n) h) hbody
        rw [Denotes]
        exact ⟨tail, members, hc ▸ hs, hmembers, rfl⟩
    · obtain ⟨_, h⟩ := h
      cases h

/-! ## Another reader of the same text -/

/-- Where the text denotes something, the reader stops where this ends, and `R` relates it to what
is read. -/
def Tracks (D : Sense β) (r : Reader α) (R : β → α → Prop) : Prop :=
  ∀ cs b rest a rest', D cs b rest → Gives (r cs) a rest' → R b a ∧ rest' = rest

theorem Tracks.imp {D : Sense β} {r : Reader α} {R S : β → α → Prop} (h : Tracks D r R)
    (hR : ∀ b a, R b a → S b a) : Tracks D r S := by
  intro cs b rest a rest' hb ha
  exact (h _ _ _ _ _ hb ha).imp_left (hR b a)

theorem Tracks.map {γ : Type} {D : Sense β} {r : Reader α} {R : β → α → Prop} {g : α → γ}
    {S : β → γ → Prop} (h : Tracks D r R) (hg : ∀ b a, R b a → S b (g a)) :
    Tracks D (r.map g) S := by
  intro cs b rest c rest' hb hc
  obtain ⟨a, ha, rfl⟩ := hc.of_map
  exact (h _ _ _ _ _ hb ha).imp_left (hg b a)

/-- What stands behind a colon. -/
def BehindColon (D : Sense β) : Sense β :=
  fun cs b rest => ∃ value, Gives (colon cs) () value ∧ D value b rest

theorem Tracks.afterColon {D : Sense β} {r : Reader α} {R : β → α → Prop} (h : Tracks D r R) :
    Tracks (BehindColon D) (afterColon r) R := by
  rintro cs b rest a rest' ⟨value, hcolon, hb⟩ ha
  obtain ⟨value', hcolon', ha⟩ := ha.of_afterColon
  obtain ⟨-, rfl⟩ := hcolon.unique hcolon'
  exact h _ _ _ _ _ hb ha

/-- A list is read item by item, each as far as the item goes. -/
theorem tracks_listItems {item : Reader α} {R : Json → α → Prop} (h : Tracks D item R)
    (first : Bool) : Tracks (Items D first) (listItems item first) (List.Forall₂ R) := by
  intro cs js rest values rest' hjs hvalues
  induction hjs generalizing values with
  | done hend =>
    obtain ⟨hend', rfl⟩ | ⟨start, value, mid, others, hnext, -⟩ := hvalues.of_listItems
    · rw [hend] at hend'
      cases hend'
      exact ⟨.nil, rfl⟩
    · rw [nextItem_end hend] at hnext
      cases hnext
  | more hnext head tail ih =>
    obtain ⟨hend, -⟩ | ⟨start, value, mid, others, hnext', -, hvalue, hothers, rfl⟩ :=
      hvalues.of_listItems
    · rw [nextItem_end hend] at hnext
      cases hnext
    · rw [hnext] at hnext'
      cases hnext'
      obtain ⟨hj, rfl⟩ := h _ _ _ _ _ head hvalue
      obtain ⟨hjs, hrest⟩ := ih _ hothers
      exact ⟨.cons hj hjs, hrest⟩

/-- An object is read member by member. What relates the members so far to the state, and is kept by
every step, relates all members to the last state. -/
theorem tracks_objectMembers {step : σ → String → Reader σ} {finish : σ → Except Fault α}
    {I : Dict Json → σ → Prop} (hstep : ∀ d s key, I d s →
      Tracks (BehindColon D) (step s key) fun j t => I (Dict.insert d key j) t)
    (first : Bool) {d : Dict Json} {s : σ} (hs : I d s) :
    Tracks (Members D first) (objectMembers step finish first s) fun ms a =>
      ∃ t, I (Dict.insertAll d ms) t ∧ finish t = .ok a := by
  intro cs ms rest a rest' hms ha
  induction hms generalizing d s with
  | done hend =>
    obtain ⟨hend', ha⟩ | ⟨start, key, behindKey, next, mid, hnext, -⟩ := ha.of_objectMembers
    · rw [hend] at hend'
      cases hend'
      exact ⟨⟨s, hs, ha⟩, rfl⟩
    · rw [nextKey_end hend] at hnext
      cases hnext
  | more hnext hkey hcolon head tail ih =>
    obtain ⟨hend, -⟩ | ⟨start, key, behindKey, next, mid, hnext', hkey', hvalue, -, hothers⟩ :=
      ha.of_objectMembers
    · rw [nextKey_end hend] at hnext
      cases hnext
    · rw [hnext] at hnext'
      cases hnext'
      obtain ⟨rfl, rfl⟩ := hkey.unique hkey'
      obtain ⟨ht, rfl⟩ := hstep d s _ hs _ _ _ _ _ ⟨_, hcolon, head⟩ hvalue
      exact ih ht hothers

/-- An object with any keys is read to the members that it has. -/
theorem tracks_dictBody {entry : Reader α} {R : Json → α → Prop} (h : Tracks D entry R) :
    Tracks (Members D true) (dictBody entry) fun ms d => Dict.Rel R (Dict.ofList ms) d := by
  have hstep : ∀ (d : Dict Json) (e : Dict α) (key : String), Dict.Rel R d e →
      Tracks (BehindColon D) ((Json.afterColon entry).map (Dict.insert e key)) fun j t =>
        Dict.Rel R (Dict.insert d key j) t :=
    fun d e key he => h.afterColon.map fun j v hv => he.insert key hv
  refine (tracks_objectMembers hstep true .nil).imp fun ms d ⟨t, ht, hd⟩ => ?_
  cases hd
  exact ht

/-! ## Any value -/

mutual

/-- The second value is the first with numbers that `M` relates to those of the first. -/
def Renumbered (M : Number → Number → Prop) : Json → Json → Prop
  | .number x, v => ∃ y, v = .number y ∧ M x y
  | .array js, v => ∃ vs, v = .array vs ∧ RenumberedItems M js vs
  | .object ms, v => ∃ vs, v = .object vs ∧ RenumberedMembers M ms vs
  | j, v => v = j

/-- `Renumbered` on every item. -/
def RenumberedItems (M : Number → Number → Prop) : List Json → List Json → Prop
  | [], vs => vs = []
  | j :: js, vs => ∃ w ws, vs = w :: ws ∧ Renumbered M j w ∧ RenumberedItems M js ws

/-- `Renumbered` on every value. -/
def RenumberedMembers (M : Number → Number → Prop) : List (String × Json) → Dict Json → Prop
  | [], vs => vs = []
  | (k, j) :: ms, vs => ∃ w ws, vs = (k, w) :: ws ∧ Renumbered M j w ∧ RenumberedMembers M ms ws

end

variable {M : Number → Number → Prop}

theorem renumberedItems_iff {js vs : List Json} :
    RenumberedItems M js vs ↔ List.Forall₂ (Renumbered M) js vs := by
  induction js generalizing vs with
  | nil => rw [RenumberedItems, List.forall₂_nil_left_iff]
  | cons j js ih =>
    simp only [RenumberedItems, List.forall₂_cons_left_iff, ih]
    constructor
    · rintro ⟨w, ws, rfl, hw, hws⟩
      exact ⟨w, ws, hw, hws, rfl⟩
    · rintro ⟨w, ws, hw, hws, rfl⟩
      exact ⟨w, ws, rfl, hw, hws⟩

theorem renumberedMembers_iff {ms : List (String × Json)} {vs : Dict Json} :
    RenumberedMembers M ms vs ↔ Dict.Rel (Renumbered M) ms vs := by
  induction ms generalizing vs with
  | nil =>
    rw [RenumberedMembers]
    exact List.forall₂_nil_left_iff.symm
  | cons m ms ih =>
    obtain ⟨k, j⟩ := m
    simp only [RenumberedMembers, List.forall₂_cons_left_iff, ih]
    constructor
    · rintro ⟨w, ws, rfl, hw, hws⟩
      exact ⟨(k, w), ws, ⟨rfl, hw⟩, hws, rfl⟩
    · rintro ⟨⟨_, w⟩, ws, ⟨rfl, hw⟩, hws, rfl⟩
      exact ⟨w, ws, rfl, hw, hws⟩

mutual

/-- With the same numbers it is the same value. -/
theorem eq_of_renumbered : {j v : Json} → Renumbered Eq j v → v = j
  | .null, _, h | .bool _, _, h | .string _, _, h => h
  | .number _, _, h => by
    rw [Renumbered] at h
    obtain ⟨_, rfl, rfl⟩ := h
    rfl
  | .array _, _, h => by
    rw [Renumbered] at h
    obtain ⟨vs, rfl, h⟩ := h
    rw [eq_of_renumberedItems h]
  | .object _, _, h => by
    rw [Renumbered] at h
    obtain ⟨vs, rfl, h⟩ := h
    rw [eq_of_renumberedMembers h]

theorem eq_of_renumberedItems : {js vs : List Json} → RenumberedItems Eq js vs → vs = js
  | [], _, h => h
  | _ :: _, _, h => by
    rw [RenumberedItems] at h
    obtain ⟨w, ws, rfl, hw, hws⟩ := h
    rw [eq_of_renumbered hw, eq_of_renumberedItems hws]

theorem eq_of_renumberedMembers : {ms : List (String × Json)} → {vs : Dict Json} →
    RenumberedMembers Eq ms vs → vs = ms
  | [], _, h => h
  | (_, _) :: _, _, h => by
    rw [RenumberedMembers] at h
    obtain ⟨w, ws, rfl, hw, hws⟩ := h
    rw [eq_of_renumbered hw, eq_of_renumberedMembers hws]

end

/-- What the sense takes for a number is a numeral, and `M` relates it to what is read. -/
structure ReadAs (N : Sense Number) (M : Number → Number → Prop) : Prop where
  numeral : ∀ cs x rest, N cs x rest → ∃ n, Gives (Numeral.read cs) n rest
  value : ∀ cs x rest y rest', N cs x rest → Gives (readNumber cs) y rest' → M x y

variable {N : Sense Number}

theorem readAs_readSense : ReadAs readSense Eq where
  numeral _ _ _ h := (gives_readNumber_iff.mp h).imp fun _ hn => hn.1
  value _ _ _ _ _ h h' := (h.unique h').1

/-- A number is read as far as its numeral goes. -/
theorem ReadAs.tracks (h : ReadAs N M) : Tracks N readNumber M := by
  intro cs x rest y rest' hx hy
  obtain ⟨n, hn⟩ := h.numeral _ _ _ hx
  obtain ⟨n', hn', -⟩ := gives_readNumber_iff.mp hy
  exact ⟨h.value _ _ _ _ _ hx hy, (hn'.unique hn).2⟩

/-! ## The first token of a denoted value -/

section

variable {limit : Nat} {j : Json} {c : Char} {tail : List Char}

/-- The first character that is no space says which kind of value the text denotes. -/
theorem Denotes.start (h : Denotes N limit cs j rest) (hs : skipSpace cs = c :: tail) :
    (c = 'n' ∧ j = .null ∧ tail = 'u' :: 'l' :: 'l' :: rest) ∨
    (c = 't' ∧ j = .bool true ∧ tail = 'r' :: 'u' :: 'e' :: rest) ∨
    (c = 'f' ∧ j = .bool false ∧ tail = 'a' :: 'l' :: 's' :: 'e' :: rest) ∨
    (startsNumber c = true ∧ ∃ x, j = .number x ∧ N (c :: tail) x rest) ∨
    (c = '"' ∧ ∃ s, j = .string s ∧ Gives (stringAfterQuote tail) s rest) ∨
    (c = '[' ∧ ∃ n js, limit = n + 1 ∧ j = .array js ∧ Items (Denotes N n) true tail js rest) ∨
    (c = '\x7b' ∧ ∃ n members, limit = n + 1 ∧ j = .object (Dict.ofList members) ∧
      Members (Denotes N n) true tail members rest) := by
  cases j with
  | null =>
    rw [Denotes, hs] at h
    obtain ⟨rfl, rfl⟩ := List.cons.inj h
    exact .inl ⟨rfl, rfl, rfl⟩
  | bool b =>
    cases b with
    | true =>
      rw [Denotes, hs] at h
      obtain ⟨rfl, rfl⟩ := List.cons.inj h
      exact .inr (.inl ⟨rfl, rfl, rfl⟩)
    | false =>
      rw [Denotes, hs] at h
      obtain ⟨rfl, rfl⟩ := List.cons.inj h
      exact .inr (.inr (.inl ⟨rfl, rfl, rfl⟩))
  | number x =>
    rw [Denotes, hs] at h
    obtain ⟨c', tail', heq, hc, hx⟩ := h
    obtain ⟨rfl, rfl⟩ := List.cons.inj heq
    exact .inr (.inr (.inr (.inl ⟨hc, x, rfl, hx⟩)))
  | string s =>
    rw [Denotes, hs] at h
    obtain ⟨tail', heq, hstring⟩ := h
    obtain ⟨rfl, rfl⟩ := List.cons.inj heq
    exact .inr (.inr (.inr (.inr (.inl ⟨rfl, s, rfl, hstring⟩))))
  | array js =>
    cases limit with
    | zero => exact absurd h (by simp [Denotes])
    | succ n =>
      rw [Denotes, hs] at h
      obtain ⟨tail', heq, hitems⟩ := h
      obtain ⟨rfl, rfl⟩ := List.cons.inj heq
      exact .inr (.inr (.inr (.inr (.inr (.inl ⟨rfl, n, js, rfl, rfl, hitems⟩)))))
  | object ms =>
    cases limit with
    | zero => exact absurd h (by simp [Denotes])
    | succ n =>
      rw [Denotes, hs] at h
      obtain ⟨tail', members, heq, hmembers, rfl⟩ := h
      obtain ⟨rfl, rfl⟩ := List.cons.inj heq
      exact .inr (.inr (.inr (.inr (.inr (.inr ⟨rfl, n, members, rfl, rfl, hmembers⟩)))))

theorem Denotes.of_null (h : Denotes N limit cs j rest) (hs : skipSpace cs = 'n' :: tail) :
    j = .null ∧ tail = 'u' :: 'l' :: 'l' :: rest := by
  have hn : startsNumber 'n' = false := by decide
  simpa [hn] using h.start hs

theorem Denotes.of_true (h : Denotes N limit cs j rest) (hs : skipSpace cs = 't' :: tail) :
    j = .bool true ∧ tail = 'r' :: 'u' :: 'e' :: rest := by
  have hn : startsNumber 't' = false := by decide
  simpa [hn] using h.start hs

theorem Denotes.of_false (h : Denotes N limit cs j rest) (hs : skipSpace cs = 'f' :: tail) :
    j = .bool false ∧ tail = 'a' :: 'l' :: 's' :: 'e' :: rest := by
  have hn : startsNumber 'f' = false := by decide
  simpa [hn] using h.start hs

theorem Denotes.of_number (h : Denotes N limit cs j rest) (hs : skipSpace cs = c :: tail)
    (hc : startsNumber c = true) : ∃ x, j = .number x ∧ N (c :: tail) x rest := by
  obtain ⟨-, -, hn, ht, hf, hq⟩ := numberStart_of_startsNumber hc
  have hopen : c ≠ '[' ∧ c ≠ '\x7b' := by
    constructor <;>
    · rintro rfl
      exact absurd hc (by decide)
  simpa [hn, ht, hf, hq, hopen, hc] using h.start hs

theorem Denotes.of_quote (h : Denotes N limit cs j rest) (hs : skipSpace cs = '"' :: tail) :
    ∃ s, j = .string s ∧ Gives (stringAfterQuote tail) s rest := by
  have hn : startsNumber '"' = false := by decide
  simpa [hn] using h.start hs

theorem Denotes.of_bracket (h : Denotes N limit cs j rest) (hs : skipSpace cs = '[' :: tail) :
    ∃ n js, limit = n + 1 ∧ j = .array js ∧ Items (Denotes N n) true tail js rest := by
  have hn : startsNumber '[' = false := by decide
  simpa [hn] using h.start hs

theorem Denotes.of_brace (h : Denotes N limit cs j rest) (hs : skipSpace cs = '\x7b' :: tail) :
    ∃ n members, limit = n + 1 ∧ j = .object (Dict.ofList members) ∧
      Members (Denotes N n) true tail members rest := by
  have hn : startsNumber '\x7b' = false := by decide
  simpa [hn] using h.start hs

end

/-! ## Any value that is read -/

/-- Any value is read as it is denoted, with its numbers as they are read. -/
theorem tracks_readJson (hN : ReadAs N M) (limit : Nat) :
    Tracks (Denotes N limit) (readJson limit) (Renumbered M) := by
  induction limit using Nat.strongRecOn with
  | ind limit ih =>
    intro cs j rest v rest' h hv
    rw [readJson.eq_def] at hv
    obtain ⟨c, tail, hs, hread⟩ := hv.of_byFirst
    rcases h.start hs with ⟨rfl, rfl, rfl⟩ | ⟨rfl, rfl, rfl⟩ | ⟨rfl, rfl, rfl⟩ |
      ⟨hc, x, rfl, hx⟩ | ⟨rfl, s, rfl, hstring⟩ | ⟨rfl, n, js, rfl, rfl, hitems⟩ |
      ⟨rfl, n, members, rfl, rfl, hmembers⟩
    · rw [if_pos rfl] at hread
      obtain ⟨rfl, ⟨⟩⟩ := hread.of_wordAfter
      exact ⟨rfl, rfl⟩
    · rw [if_neg (by decide), if_pos rfl] at hread
      obtain ⟨rfl, ⟨⟩⟩ := hread.of_wordAfter
      exact ⟨rfl, rfl⟩
    · rw [if_neg (by decide), if_neg (by decide), if_pos rfl] at hread
      obtain ⟨rfl, ⟨⟩⟩ := hread.of_wordAfter
      exact ⟨rfl, rfl⟩
    · obtain ⟨-, -, hn, ht, hf, hq⟩ := numberStart_of_startsNumber hc
      rw [if_neg hn, if_neg ht, if_neg hf, if_neg hq, if_pos hc] at hread
      obtain ⟨y, hy, rfl⟩ := hread.of_map
      exact (hN.tracks _ _ _ _ _ hx hy).imp_left fun hxy => ⟨y, rfl, hxy⟩
    · rw [if_neg (by decide), if_neg (by decide), if_neg (by decide), if_pos rfl] at hread
      obtain ⟨t, ht, rfl⟩ := hread.of_behind.of_map
      obtain ⟨rfl, rfl⟩ := hstring.unique ht
      exact ⟨rfl, rfl⟩
    · rw [if_neg (by decide), if_neg (by decide), if_neg (by decide), if_neg (by decide),
        if_neg (by decide), if_pos rfl] at hread
      obtain ⟨vs, hvs, rfl⟩ := hread.of_behind.of_map
      have hlist := tracks_listItems (ih n (Nat.lt_succ_self n)) true _ _ _ _ _ hitems hvs
      exact hlist.imp_left fun hall => ⟨vs, rfl, renumberedItems_iff.mpr hall⟩
    · rw [if_neg (by decide), if_neg (by decide), if_neg (by decide), if_neg (by decide),
        if_neg (by decide), if_neg (by decide), if_pos rfl] at hread
      obtain ⟨vs, hvs, rfl⟩ := hread.of_behind.of_map
      have hdict := tracks_dictBody (ih n (Nat.lt_succ_self n)) _ _ _ _ _ hmembers hvs
      exact hdict.imp_left fun hall => ⟨vs, rfl, renumberedMembers_iff.mpr hall⟩

end Json
end StepGraph
