import Mathlib.Data.List.DropRight
import StepGraph.Json.Skip
import StepGraph.Proofs.Json.Denotation

/-!
# Passing over a denoted value

Passing over a value looks at the grammar only, with a stack of open containers instead of a
recursion. Where the text denotes a value, the loop comes to its end with the stack as it was
(`passedOver_of_denotes`), so what is passed over is exactly the value (`tracks_skipValue`).
-/

namespace StepGraph
namespace Json

variable {cs rest : List Char}

/-! ## Strings -/

theorem skipString_backslash (h : skipEscape cs = .ok rest) :
    skipString ('\\' :: cs) = skipString rest := by
  rw [skipString, if_neg (by decide), if_pos rfl]
  split
  · rename_i herror
    rw [h] at herror
    cases herror
  · rename_i hok
    rw [h] at hok
    cases hok
    rfl

theorem skipString_unit {n : Nat} (h : Gives (readUnit cs) n rest) :
    skipString ('\\' :: 'u' :: cs) = skipString rest := by
  obtain ⟨_, h⟩ := h
  refine skipString_backslash ?_
  rw [skipEscape, if_pos rfl, h]

/-- The trailing unit of a pair is passed over on its own. -/
theorem skipString_of_readTrailing {leading : Nat} {c : Char}
    (h : Gives (readTrailing leading cs) c rest) : skipString cs = skipString rest := by
  obtain ⟨_, h⟩ := h
  unfold readTrailing at h
  split at h
  · cases h
  · split at h <;> cases h
  · split at h
    · rename_i hescape
      obtain ⟨rfl, rfl⟩ := hescape
      split at h
      · cases h
      · rename_i p hp
        split at h
        · have hrest : p.rest = rest := congrArg Parsed.rest (Except.ok.inj h)
          exact hrest ▸ skipString_unit (gives_of_eq_ok hp)
        · cases h
    · cases h

theorem skipString_of_readCodePoint {c : Char} (h : Gives (readCodePoint cs) c rest) :
    skipString ('\\' :: 'u' :: cs) = skipString rest := by
  obtain ⟨_, h⟩ := h
  unfold readCodePoint at h
  split at h
  · cases h
  · rename_i p hp
    rw [skipString_unit (gives_of_eq_ok hp)]
    split at h
    · cases h
    split at h
    · split at h
      · cases h
      · rename_i q hq
        cases h
        exact skipString_of_readTrailing (gives_of_eq_ok hq)
    · cases h
      rfl

theorem skipString_of_readEscape {c : Char} (h : Gives (readEscape cs) c rest) :
    skipString ('\\' :: cs) = skipString rest := by
  cases cs with
  | nil =>
    obtain ⟨_, h⟩ := h
    cases h
  | cons d cs =>
    rw [readEscape] at h
    split at h
    · rename_i hd
      subst hd
      exact skipString_of_readCodePoint h.of_behind
    · rename_i hd
      refine skipString_backslash ?_
      obtain ⟨_, h⟩ := h
      split at h
      · rename_i hletter
        cases h
        rw [skipEscape, if_neg hd, hletter]
        rfl
      · cases h

theorem skipString_of_stringTail {seen s : List Char} (h : stringTail seen cs = .ok (s, rest)) :
    skipString cs = .ok rest := by
  induction hn : cs.length using Nat.strongRecOn generalizing seen cs with
  | ind n ih =>
    subst hn
    rw [stringTail.eq_def] at h
    split at h
    · cases h
    split at h
    · rename_i hc
      cases h
      rw [skipString, if_pos hc]
    · rename_i hquote
      split at h
      · rename_i hc
        split at h
        · cases h
        · rename_i p hp
          subst hc
          rw [skipString_of_readEscape (gives_of_eq_ok hp)]
          exact ih _ (Nat.lt_succ_of_lt p.shorter) h rfl
      · rename_i hbackslash
        split at h
        · cases h
        · rename_i hcontrol
          rw [skipString, if_neg hquote, if_neg hbackslash, if_neg hcontrol]
          exact ih _ (Nat.lt_succ_self _) h rfl

/-- What can be read as a string can be passed over. -/
theorem skipString_of_gives {s : String} (h : Gives (stringAfterQuote cs) s rest) :
    skipString cs = .ok rest := by
  obtain ⟨_, h⟩ := h
  unfold stringAfterQuote at h
  split at h
  · cases h
  · rename_i hs
    cases h
    exact skipString_of_stringTail hs

/-! ## Steps of the loop -/

variable {frames : List Container} {first : Bool} {c : Char} {tail start : List Char}

/-- The first character that is no space decides how the value is passed over. -/
theorem skipFrames_value_eq (hs : skipSpace cs = c :: tail) : skipFrames frames .value cs =
    if c = '[' then skipFrames (.list :: frames) (.next true) tail
    else if c = '\x7b' then skipFrames (.object :: frames) (.next true) tail
    else skipScalar c tail >>= skipFrames frames (.next false) := by
  rw [skipFrames]
  split
  · rename_i hnil
    rw [hs] at hnil
    cases hnil
  · rename_i hcons
    rw [hs] at hcons
    cases hcons
    split
    · rfl
    split
    · rfl
    split
    · rename_i herror
      rw [herror]
      rfl
    · rename_i hok
      rw [hok]
      rfl

theorem skipFrames_scalar (hs : skipSpace cs = c :: tail) (h : skipScalar c tail = .ok rest) :
    skipFrames frames .value cs = skipFrames frames (.next false) rest := by
  have hlist : c ≠ '[' := by
    rintro rfl
    cases h
  have hobject : c ≠ '\x7b' := by
    rintro rfl
    cases h
  rw [skipFrames_value_eq hs, if_neg hlist, if_neg hobject, h]
  rfl

/-- The end of a container, or where it goes on. -/
theorem skipFrames_next_eq {frame : Container} (hs : skipSpace cs = c :: tail) :
    skipFrames (frame :: frames) (.next first) cs =
      if c = frame.last then skipFrames frames (.next false) tail
      else if !first && c != ',' then .error (.commaOrEndExpected frame)
      else match frame with
        | .list => skipFrames (.list :: frames) .value (itemStart first c tail)
        | .object =>
          skipKey (itemStart first c tail) >>= skipFrames (.object :: frames) .value := by
  conv_lhs => rw [skipFrames]
  split
  · rename_i hnil
    rw [hs] at hnil
    cases hnil
  · rename_i hcons
    rw [hs] at hcons
    cases hcons
    split
    · rfl
    split
    · rfl
    split
    · rfl
    · split
      · rename_i herror
        rw [herror]
        rfl
      · rename_i hok
        rw [hok]
        rfl

/-- A value is passed over alike behind spaces. -/
theorem skipFrames_value_congr {ds : List Char} (hs : skipSpace cs = c :: tail)
    (hs' : skipSpace ds = c :: tail) :
    skipFrames frames .value cs = skipFrames frames .value ds := by
  rw [skipFrames_value_eq hs, skipFrames_value_eq hs']

theorem skipSpace_skipSpace (cs : List Char) : skipSpace (skipSpace cs) = skipSpace cs :=
  List.dropWhile_idempotent isSpace cs

/-- An item starts where reading the list finds it. -/
theorem skipFrames_item (h : nextItem first cs = .ok (some start)) :
    skipFrames (.list :: frames) (.next first) cs = skipFrames (.list :: frames) .value start := by
  unfold nextItem at h
  split at h
  · cases h
  rename_i c tail hs
  split at h
  · cases h
  rename_i hend
  rw [skipFrames_next_eq hs, if_neg (show ¬c = Container.list.last from hend)]
  split at h
  · rename_i hfirst
    cases h
    subst hfirst
    rfl
  · rename_i hfirst
    rw [Bool.not_eq_true] at hfirst
    subst hfirst
    split at h
    · rename_i hcomma
      subst hcomma
      split at h
      · cases h
      rename_i d next hs'
      split at h
      · cases h
      · cases h
        exact skipFrames_value_congr hs' (hs' ▸ skipSpace_skipSpace tail)
    · cases h

theorem skipKey_of_gives {key : String} {behindKey value : List Char}
    (hs : skipSpace cs = '"' :: start) (hkey : Gives (stringAfterQuote start) key behindKey)
    (hcolon : Gives (colon behindKey) () value) : skipKey cs = .ok value := by
  obtain ⟨_, hcolon⟩ := hcolon
  rw [skipKey, hs]
  dsimp only
  rw [if_pos rfl, skipString_of_gives hkey]
  dsimp only
  rw [hcolon]

/-- A member starts where reading the object finds its key. -/
theorem skipFrames_member {key : String} {behindKey value : List Char}
    (h : nextKey first cs = .ok (some start)) (hkey : Gives (stringAfterQuote start) key behindKey)
    (hcolon : Gives (colon behindKey) () value) :
    skipFrames (.object :: frames) (.next first) cs =
      skipFrames (.object :: frames) .value value := by
  unfold nextKey at h
  split at h
  · cases h
  rename_i c tail hs
  split at h
  · cases h
  rename_i hend
  rw [skipFrames_next_eq hs, if_neg (show ¬c = Container.object.last from hend)]
  split at h
  · rename_i hfirst
    subst hfirst
    split at h
    · rename_i hquote
      cases h
      subst hquote
      have hmember : skipKey (itemStart true '"' start) = .ok value :=
        skipKey_of_gives (skipSpace_cons (by decide)) hkey hcolon
      rw [if_neg (by decide), hmember]
      rfl
    · cases h
  · rename_i hfirst
    rw [Bool.not_eq_true] at hfirst
    subst hfirst
    split at h
    · rename_i hcomma
      subst hcomma
      split at h
      · cases h
      rename_i d next hs'
      split at h
      · rename_i hquote
        cases h
        subst hquote
        have hmember : skipKey (itemStart false ',' tail) = .ok value :=
          skipKey_of_gives hs' hkey hcolon
        rw [if_neg (by decide), hmember]
        rfl
      · split at h <;> cases h
    · cases h

/-! ## Values -/

/-- The loop comes to the end of the value with the containers that were open before. -/
def PassedOver : Sense Json := fun cs _ rest =>
  ∀ frames, skipFrames frames .value cs = skipFrames frames (.next false) rest

theorem skipFrames_items {D : Sense Json} (hD : ∀ cs j rest, D cs j rest → PassedOver cs j rest)
    {js : List Json} (h : Items D first cs js rest) :
    skipFrames (.list :: frames) (.next first) cs = skipFrames frames (.next false) rest := by
  induction h with
  | done hend =>
    rw [skipFrames_next_eq hend]
    exact if_pos rfl
  | more hnext head tail ih => rw [skipFrames_item hnext, hD _ _ _ head, ih]

theorem skipFrames_members {D : Sense Json} (hD : ∀ cs j rest, D cs j rest → PassedOver cs j rest)
    {ms : List (String × Json)} (h : Members D first cs ms rest) :
    skipFrames (.object :: frames) (.next first) cs = skipFrames frames (.next false) rest := by
  induction h with
  | done hend =>
    rw [skipFrames_next_eq hend]
    exact if_pos rfl
  | more hnext hkey hcolon head tail ih =>
    rw [skipFrames_member hnext hkey hcolon, hD _ _ _ head, ih]

/-- A number is passed over as far as its numeral goes. -/
theorem skipScalar_of_startsNumber (hc : startsNumber c = true) {n : Numeral}
    (h : Gives (Numeral.read (c :: tail)) n rest) : skipScalar c tail = .ok rest := by
  obtain ⟨-, -, hn, ht, hf, hq⟩ := numberStart_of_startsNumber hc
  obtain ⟨_, h⟩ := h
  have hstart : c = '-' ∨ c.isDigit = true := by simpa [startsNumber] using hc
  rw [skipScalar, if_neg hn, if_neg ht, if_neg hf, if_neg hq, if_pos hstart, skipNumber, h]

variable {N : Sense Number} {M : Number → Number → Prop}

/-- A denoted value is passed over to its end. -/
theorem passedOver_of_denotes (hN : ReadAs N M) {limit : Nat} :
    ∀ cs j rest, Denotes N limit cs j rest → PassedOver cs j rest := by
  induction limit using Nat.strongRecOn with
  | ind limit ih =>
    intro cs j rest h frames
    cases j with
    | null =>
      rw [Denotes] at h
      exact skipFrames_scalar h rfl
    | bool b =>
      cases b with
      | true | false =>
        rw [Denotes] at h
        exact skipFrames_scalar h rfl
    | number x =>
      rw [Denotes] at h
      obtain ⟨c, tail, hs, hc, hx⟩ := h
      obtain ⟨n, hn⟩ := hN.numeral _ _ _ hx
      exact skipFrames_scalar hs (skipScalar_of_startsNumber hc hn)
    | string s =>
      rw [Denotes] at h
      obtain ⟨tail, hs, hstring⟩ := h
      exact skipFrames_scalar hs (skipString_of_gives hstring)
    | array js =>
      cases limit with
      | zero => exact absurd h (by simp [Denotes])
      | succ n =>
        rw [Denotes] at h
        obtain ⟨tail, hs, hitems⟩ := h
        rw [skipFrames_value_eq hs, if_pos rfl]
        exact skipFrames_items (ih n (Nat.lt_succ_self n)) hitems
    | object ms =>
      cases limit with
      | zero => exact absurd h (by simp [Denotes])
      | succ n =>
        rw [Denotes] at h
        obtain ⟨tail, members, hs, hmembers, -⟩ := h
        rw [skipFrames_value_eq hs, if_neg (by decide), if_pos rfl]
        exact skipFrames_members (ih n (Nat.lt_succ_self n)) hmembers

/-- What is passed over is exactly the denoted value. -/
theorem tracks_skipValue (hN : ReadAs N M) (limit : Nat) :
    Tracks (Denotes N limit) skipValue fun _ _ => True := by
  rintro cs j rest ⟨⟩ rest' h ⟨_, hskip⟩
  refine ⟨trivial, ?_⟩
  have hpassed : skipFrames [] .value cs = .ok rest := by
    rw [passedOver_of_denotes hN cs j rest h]
    exact skipFrames.eq_2 ..
  unfold skipValue at hskip
  split at hskip
  · cases hskip
  · rename_i hrest
    cases hskip
    exact Except.ok.inj (hrest.symm.trans hpassed)

end Json
end StepGraph
