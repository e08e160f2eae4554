/-!
# Ordered dictionaries

A dictionary is a list of keys with their values in the order in which the keys came. A key that
comes again keeps its place and takes the new value.

* `get?_insert`: what is found under a key after an insertion.
* `keys_insert_nodup`: an insertion makes no key double.
* `ofList_eq_self`: members with distinct keys are a dictionary as they are.
-/

namespace StepGraph

/-- Keys with their values, in order. -/
abbrev Dict (α : Type) := List (String × α)

namespace Dict

variable {α β : Type}

/-- The keys in order. -/
def keys (d : Dict α) : List String := d.map Prod.fst

/-- The values in order. -/
def values (d : Dict α) : List α := d.map Prod.snd

/-- The value of a key. -/
def get? (d : Dict α) (key : String) : Option α :=
  match d with
  | [] => none
  | (k, v) :: rest => if k = key then some v else get? rest key

/-- Gives `key` the value `value`, in its old place or at the end. -/
def insert (d : Dict α) (key : String) (value : α) : Dict α :=
  match d with
  | [] => [(key, value)]
  | (k, v) :: rest => if k = key then (key, value) :: rest else (k, v) :: insert rest key value

/-- Inserts members in order. -/
def insertAll (d : Dict α) (members : List (String × α)) : Dict α :=
  members.foldl (fun d m => insert d m.1 m.2) d

/-- The dictionary of members that may repeat a key. -/
def ofList (members : List (String × α)) : Dict α := insertAll [] members

/-- Equal as mappings: the same keys, with values that `same` holds of. -/
def sameBy (same : α → α → Bool) (a b : Dict α) : Bool :=
  a.length == b.length && a.all fun (k, v) =>
    match get? b k with
    | some w => same v w
    | none => false

/-- The inserted value is found under its key, and nothing else changes. -/
theorem get?_insert (d : Dict α) (key k : String) (value : α) :
    get? (insert d key value) k = if key = k then some value else get? d k := by
  induction d with
  | nil => rfl
  | cons m rest ih =>
    obtain ⟨k', v⟩ := m
    by_cases hm : k' = key
    · subst hm
      by_cases hk : k' = k <;> simp [insert, get?, hk]
    · by_cases hk : k' = k
      · subst hk
        simp [insert, get?, hm, Ne.symm hm]
      · simp [insert, get?, hm, hk, ih]

theorem mem_keys_insert {d : Dict α} {key k : String} {value : α} :
    k ∈ keys (insert d key value) ↔ k = key ∨ k ∈ keys d := by
  induction d with
  | nil => simp [insert, keys]
  | cons m rest ih =>
    unfold insert
    split
    · rename_i h
      simp [keys, h]
    · simp only [keys, List.map_cons, List.mem_cons] at ih ⊢
      rw [ih]
      exact or_left_comm

/-- An insertion makes no key double. -/
theorem keys_insert_nodup {d : Dict α} (h : (keys d).Nodup) (key : String) (value : α) :
    (keys (insert d key value)).Nodup := by
  induction d with
  | nil => simp [insert, keys]
  | cons m rest ih =>
    simp only [keys, List.map_cons, List.nodup_cons] at h
    unfold insert
    split
    · rename_i hk
      simpa [keys, ← hk] using h
    · rename_i hk
      simp only [keys, List.map_cons, List.nodup_cons]
      refine ⟨fun hm => ?_, ih h.2⟩
      rcases mem_keys_insert.mp hm with rfl | hm
      · exact hk rfl
      · exact h.1 hm

/-- The inserted value and the old ones are all that an insertion leaves. -/
theorem forall_mem_insert {P : α → Prop} {d : Dict α} {key : String} {value : α}
    (h : ∀ m ∈ d, P m.2) (hvalue : P value) : ∀ m ∈ insert d key value, P m.2 := by
  induction d with
  | nil => simpa [insert] using hvalue
  | cons m rest ih =>
    obtain ⟨hm, hrest⟩ := List.forall_mem_cons.mp h
    unfold insert
    split
    · exact List.forall_mem_cons.mpr ⟨hvalue, hrest⟩
    · exact List.forall_mem_cons.mpr ⟨hm, ih hrest⟩

/-- A new key comes at the end. -/
theorem insert_eq_append {d : Dict α} {key : String} (h : key ∉ keys d) (value : α) :
    insert d key value = d ++ [(key, value)] := by
  induction d with
  | nil => rfl
  | cons m rest ih =>
    simp only [keys, List.map_cons, List.mem_cons, not_or] at h
    rw [insert, if_neg (Ne.symm h.1), ih h.2]
    rfl

theorem insertAll_eq_append {d : Dict α} {members : List (String × α)}
    (h : (keys (d ++ members)).Nodup) : insertAll d members = d ++ members := by
  induction members generalizing d with
  | nil => simp [insertAll]
  | cons m rest ih =>
    have hm : m.1 ∉ keys d := by
      simp only [keys, List.map_append, List.map_cons, List.nodup_append] at h
      exact fun hk => h.2.2 _ hk _ (List.mem_cons_self ..) rfl
    have happend : d ++ m :: rest = d ++ [m] ++ rest := by simp
    rw [happend] at h ⊢
    rw [← ih h, ← insert_eq_append hm m.2]
    rfl

/-- Members with distinct keys are a dictionary as they are. -/
theorem ofList_eq_self {members : List (String × α)} (h : (keys members).Nodup) :
    ofList members = members :=
  insertAll_eq_append h

end Dict
end StepGraph
