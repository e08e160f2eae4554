import StepGraph.Json.Value

/-!
# What a reader gives

`Gives result value rest` says that reading went well: it gave `value` and left `rest`. The reader
is applied to its text in `result`, so the same notion serves a reader, the text behind a character
and the loops over items and members.

* `Blank cs`: only spaces. Readers pass over them (`skipSpace_blank`).
* `gives_byFirst`: a reader is decided by the first character that is no space.
-/

namespace StepGraph
namespace Json

variable {α β : Type}

/-- Reading gave `value` and left `rest`. -/
def Gives {cs : List Char} (result : Except Fault (Parsed α cs)) (value : α)
    (rest : List Char) : Prop :=
  ∃ shorter, result = .ok ⟨value, rest, shorter⟩

theorem gives_of_eq_ok {cs : List Char} {result : Except Fault (Parsed α cs)} {p : Parsed α cs}
    (h : result = .ok p) : Gives result p.value p.rest :=
  ⟨p.shorter, h⟩

/-! ## Spaces -/

/-- The text consists of spaces. -/
def Blank (cs : List Char) : Prop := ∀ c ∈ cs, isSpace c = true

theorem blank_nil : Blank [] := fun _ h => nomatch h

/-- Spaces in front of a token are passed over. -/
theorem skipSpace_blank {blanks cs : List Char} {c : Char} (hb : Blank blanks)
    (hc : isSpace c = false) : skipSpace (blanks ++ c :: cs) = c :: cs := by
  rw [skipSpace, List.dropWhile_append_of_pos hb, List.dropWhile_cons_of_neg (by simp [hc])]

theorem skipSpace_cons {cs : List Char} {c : Char} (hc : isSpace c = false) :
    skipSpace (c :: cs) = c :: cs :=
  skipSpace_blank blank_nil hc

/-! ## Readers made from readers -/

variable {r : Reader α} {cs rest : List Char} {value : α}

theorem Gives.map {f : α → β} (h : Gives (r cs) value rest) :
    Gives (r.map f cs) (f value) rest := by
  obtain ⟨shorter, h⟩ := h
  refine ⟨shorter, ?_⟩
  rw [Reader.map, h]
  rfl

theorem Reader.map_map {γ : Type} (r : Reader α) (f : α → β) (g : β → γ) :
    (r.map f).map g = r.map fun a => g (f a) := by
  funext cs
  unfold Reader.map
  cases r cs with
  | ok p => rfl
  | error e => rfl

/-- The first character that is no space decides. -/
theorem gives_byFirst {read : (c : Char) → (rest : List Char) → Except Fault (Parsed α (c :: rest))}
    {c : Char} {tail : List Char} (hs : skipSpace cs = c :: tail)
    (h : Gives (read c tail) value rest) : Gives (byFirst read cs) value rest := by
  obtain ⟨_, h⟩ := h
  unfold byFirst
  split
  · rename_i hnil
    rw [hs] at hnil
    cases hnil
  · rename_i c' tail' hcons
    rw [hs] at hcons
    cases hcons
    rw [h]
    exact ⟨_, rfl⟩

theorem gives_behind {c : Char} (h : Gives (r cs) value rest) :
    Gives (behind c r cs) value rest := by
  obtain ⟨_, h⟩ := h
  unfold behind
  rw [h]
  exact ⟨_, rfl⟩

theorem word_append (letters rest : List Char) : word letters (letters ++ rest) = .ok rest := by
  induction letters with
  | nil => rfl
  | cons l letters ih => rw [List.cons_append, word, if_pos rfl, ih]

theorem gives_wordAfter (first : Char) (letters : List Char) (value : α) (rest : List Char) :
    Gives (wordAfter first letters value (letters ++ rest)) value rest := by
  unfold wordAfter
  split
  · rename_i h
    rw [word_append] at h
    cases h
    exact ⟨_, rfl⟩
  · rename_i h
    rw [word_append] at h
    cases h

theorem gives_colon (cs : List Char) : Gives (colon (':' :: cs)) () cs := by
  unfold colon
  split
  · rename_i hs
    rw [skipSpace_cons (by decide)] at hs
    cases hs
  · rename_i hs
    rw [skipSpace_cons (by decide)] at hs
    cases hs
    exact ⟨_, if_pos rfl⟩

/-- A colon right in front of the value. -/
theorem gives_afterColon (h : Gives (r cs) value rest) :
    Gives (afterColon r (':' :: cs)) value rest := by
  obtain ⟨_, h⟩ := h
  obtain ⟨_, hcolon⟩ := gives_colon cs
  unfold afterColon
  rw [hcolon]
  dsimp only
  rw [h]
  exact ⟨_, rfl⟩

/-! ## What a reader has given -/

theorem Gives.unique {result : Except Fault (Parsed α cs)} {value' : α} {rest' : List Char}
    (h : Gives result value rest) (h' : Gives result value' rest') :
    value = value' ∧ rest = rest' := by
  obtain ⟨_, h⟩ := h
  obtain ⟨_, h'⟩ := h'
  rw [h] at h'
  cases h'
  exact ⟨rfl, rfl⟩

theorem Gives.of_map {f : α → β} {b : β} (h : Gives (r.map f cs) b rest) :
    ∃ a, Gives (r cs) a rest ∧ f a = b := by
  obtain ⟨_, h⟩ := h
  unfold Reader.map at h
  split at h
  · rename_i p hp
    cases h
    exact ⟨p.value, gives_of_eq_ok hp, rfl⟩
  · cases h

theorem Gives.of_behind {c : Char} (h : Gives (behind c r cs) value rest) :
    Gives (r cs) value rest := by
  obtain ⟨_, h⟩ := h
  unfold behind at h
  split at h
  · cases h
  · rename_i p hp
    cases h
    exact gives_of_eq_ok hp

theorem Gives.of_byFirst
    {read : (c : Char) → (rest : List Char) → Except Fault (Parsed α (c :: rest))}
    (h : Gives (byFirst read cs) value rest) :
    ∃ c tail, skipSpace cs = c :: tail ∧ Gives (read c tail) value rest := by
  obtain ⟨_, h⟩ := h
  unfold byFirst at h
  split at h
  · cases h
  · rename_i c tail hs
    split at h
    · cases h
    · rename_i p hp
      cases h
      exact ⟨c, tail, hs, gives_of_eq_ok hp⟩

theorem word_eq_ok {letters : List Char} : word letters cs = .ok rest ↔ cs = letters ++ rest := by
  refine ⟨fun h => ?_, fun h => h ▸ word_append letters rest⟩
  induction letters generalizing cs with
  | nil =>
    cases h
    rfl
  | cons l letters ih =>
    cases cs with
    | nil => cases h
    | cons c cs =>
      rw [word] at h
      split at h
      · rename_i hc
        rw [hc, ih h]
        rfl
      · cases h

theorem Gives.of_wordAfter {first : Char} {letters : List Char} {a : α}
    (h : Gives (wordAfter first letters a cs) value rest) : value = a ∧ cs = letters ++ rest := by
  obtain ⟨_, h⟩ := h
  unfold wordAfter at h
  split at h
  · rename_i hword
    cases h
    exact ⟨rfl, word_eq_ok.mp hword⟩
  · cases h

theorem Gives.of_afterColon (h : Gives (afterColon r cs) value rest) :
    ∃ mid, Gives (colon cs) () mid ∧ Gives (r mid) value rest := by
  obtain ⟨_, h⟩ := h
  unfold afterColon at h
  split at h
  · cases h
  · rename_i p hp
    split at h
    · cases h
    · rename_i q hq
      cases h
      exact ⟨p.rest, gives_of_eq_ok hp, gives_of_eq_ok hq⟩

end Json
end StepGraph
