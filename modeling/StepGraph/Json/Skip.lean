import StepGraph.Json.Numeral
import StepGraph.Json.StringText

/-!
# Passing over a value

The value of an unknown field is passed over, and only its grammar is checked: there is no limit on
how deep it nests, no number is too large, and escaped surrogates need not pair up. A comma before
the end of a container counts as a missing value or key, and a number that breaks off is a bad one.

The loop keeps the containers that are still open, innermost first.
-/

namespace StepGraph
namespace Json

/-- Passes over an escape after its backslash. -/
def skipEscape (cs : List Char) : Except Fault (List Char) :=
  match cs with
  | [] => .error (.endOfText .string)
  | c :: rest =>
    if c = 'u' then
      match readUnit rest with
      | .error e => .error e
      | .ok p => .ok p.rest
    else if (ofEscapeLetter? c).isSome then .ok rest
    else .error .badEscape

theorem length_lt_of_skipEscape {cs rest : List Char} (h : skipEscape cs = .ok rest) :
    rest.length < cs.length := by
  unfold skipEscape at h
  split at h
  · cases h
  · split at h
    · split at h
      · cases h
      · rename_i p _
        cases h
        exact Nat.lt_succ_of_lt p.shorter
    · split at h
      · cases h
        exact Nat.lt_succ_self _
      · cases h

/-- Passes over a string after its opening quote. -/
def skipString (cs : List Char) : Except Fault (List Char) :=
  match cs with
  | [] => .error (.endOfText .string)
  | c :: rest =>
    if c = '"' then .ok rest
    else if c = '\\' then
      match _escape : skipEscape rest with
      | .error e => .error e
      | .ok after => skipString after
    else if c.toNat < 0x20 then .error .controlCharacter
    else skipString rest
termination_by cs.length
decreasing_by
  · exact Nat.lt_succ_of_lt (length_lt_of_skipEscape _escape)
  · exact Nat.lt_succ_self _

theorem length_lt_of_skipString {cs rest : List Char} (h : skipString cs = .ok rest) :
    rest.length < cs.length := by
  fun_induction skipString cs with
  | case1 => cases h
  | case2 =>
    cases h
    exact Nat.lt_succ_self _
  | case3 => cases h
  | case4 rest after he _ ih =>
    have := length_lt_of_skipEscape he
    have := ih h
    simp only [List.length_cons]
    omega
  | case5 => cases h
  | case6 _ _ _ _ _ ih =>
    have := ih h
    simp only [List.length_cons]
    omega

/-- Passes over a number. -/
def skipNumber (cs : List Char) : Except Fault (List Char) :=
  match Numeral.read cs with
  | .ok p => .ok p.rest
  | .error _ => .error .badNumber

theorem length_lt_of_skipNumber {cs rest : List Char} (h : skipNumber cs = .ok rest) :
    rest.length < cs.length := by
  unfold skipNumber at h
  split at h
  · rename_i p _
    cases h
    exact p.shorter
  · cases h

/-- What the loop looks at next. -/
inductive SkipState where
  /-- A value must follow. -/
  | value
  /-- The innermost container ends or goes on. `first` if nothing in it has been read. -/
  | next (first : Bool)

/-- How far the loop may go on without taking a character. -/
def SkipState.slack : SkipState → Nat
  | value => 0
  | next _ => 1

/-- The character that ends a container. -/
def Container.last : Container → Char
  | list => ']'
  | object => '\x7d'

/-- A container that the text breaks off in. -/
def Container.unfinished : Container → Unfinished
  | list => .list
  | object => .object

/-- Passes over the key of a member, with its colon. -/
def skipKey (cs : List Char) : Except Fault (List Char) :=
  match skipSpace cs with
  | [] => .error (.endOfText .object)
  | c :: rest =>
    if c = '"' then
      match skipString rest with
      | .error e => .error e
      | .ok rest =>
        match colon rest with
        | .error e => .error e
        | .ok p => .ok p.rest
    else .error .keyExpected

theorem length_lt_of_skipKey {cs rest : List Char} (h : skipKey cs = .ok rest) :
    rest.length < cs.length := by
  unfold skipKey at h
  split at h
  · cases h
  · rename_i c cs' hs
    have := length_lt_of_skipSpace hs
    split at h
    · split at h
      · cases h
      · rename_i rest' hr
        have := length_lt_of_skipString hr
        split at h
        · cases h
        · rename_i p _
          cases h
          have := p.shorter
          omega
    · cases h

/-- Passes over a value without containers in it. -/
def skipScalar (c : Char) (rest : List Char) : Except Fault (List Char) :=
  if c = 'n' then word ['u', 'l', 'l'] rest
  else if c = 't' then word ['r', 'u', 'e'] rest
  else if c = 'f' then word ['a', 'l', 's', 'e'] rest
  else if c = '"' then skipString rest
  else if c = '-' ∨ c.isDigit then skipNumber (c :: rest)
  else .error .valueExpected

theorem length_le_of_skipScalar {c : Char} {cs rest : List Char}
    (h : skipScalar c cs = .ok rest) : rest.length ≤ cs.length := by
  unfold skipScalar at h
  split at h
  · exact length_le_of_word h
  split at h
  · exact length_le_of_word h
  split at h
  · exact length_le_of_word h
  split at h
  · exact Nat.le_of_lt (length_lt_of_skipString h)
  split at h
  · exact Nat.le_of_lt_succ (length_lt_of_skipNumber h)
  · cases h

/-- The first item or member starts with `c`, each later one after it. -/
def itemStart (first : Bool) (c : Char) (rest : List Char) : List Char :=
  if first then c :: rest else rest

theorem length_itemStart_le (first : Bool) (c : Char) (rest : List Char) :
    (itemStart first c rest).length ≤ (c :: rest).length := by
  unfold itemStart
  split
  · exact Nat.le_refl _
  · exact Nat.le_succ _

/-- Passes over a value, if one must follow, and then over the rest of the containers `frames`. -/
def skipFrames (frames : List Container) (state : SkipState) (cs : List Char) :
    Except Fault (List Char) :=
  match state, frames with
  | .value, frames =>
    match _space : skipSpace cs with
    | [] => .error (.endOfText .value)
    | c :: rest =>
      if c = '[' then skipFrames (.list :: frames) (.next true) rest
      else if c = '\x7b' then skipFrames (.object :: frames) (.next true) rest
      else match _scalar : skipScalar c rest with
        | .error e => .error e
        | .ok after => skipFrames frames (.next false) after
  | .next _, [] => .ok cs
  | .next first, frame :: frames =>
    match _space : skipSpace cs with
    | [] => .error (.endOfText frame.unfinished)
    | c :: rest =>
      if c = frame.last then skipFrames frames (.next false) rest
      else if !first && c != ',' then .error (.commaOrEndExpected frame)
      else match frame with
        | .list => skipFrames (.list :: frames) .value (itemStart first c rest)
        | .object =>
          match _key : skipKey (itemStart first c rest) with
          | .error e => .error e
          | .ok after => skipFrames (.object :: frames) .value after
termination_by 2 * cs.length + state.slack
decreasing_by
  · have := length_lt_of_skipSpace _space
    simp only [SkipState.slack]
    omega
  · have := length_lt_of_skipSpace _space
    simp only [SkipState.slack]
    omega
  · have := length_lt_of_skipSpace _space
    have := length_le_of_skipScalar _scalar
    simp only [SkipState.slack]
    omega
  · have := length_lt_of_skipSpace _space
    simp only [SkipState.slack]
    omega
  · have := length_le_of_skipSpace _space
    have := length_itemStart_le first c rest
    simp only [SkipState.slack]
    omega
  · have := length_le_of_skipSpace _space
    have := length_itemStart_le first c rest
    have := length_lt_of_skipKey _key
    simp only [SkipState.slack]
    omega

theorem length_of_skipFrames {frames : List Container} {state : SkipState} {cs rest : List Char}
    (h : skipFrames frames state cs = .ok rest) :
    2 * rest.length < 2 * cs.length + state.slack := by
  fun_induction skipFrames frames state cs with
  | case1 => cases h
  | case2 _ _ _ hs ih =>
    have := ih h
    have := length_lt_of_skipSpace hs
    simp only [SkipState.slack] at *
    omega
  | case3 _ _ _ hs _ ih =>
    have := ih h
    have := length_lt_of_skipSpace hs
    simp only [SkipState.slack] at *
    omega
  | case4 => cases h
  | case5 _ _ _ _ hs _ _ _ hc ih =>
    have := ih h
    have := length_lt_of_skipSpace hs
    have := length_le_of_skipScalar hc
    simp only [SkipState.slack] at *
    omega
  | case6 =>
    cases h
    exact Nat.lt_succ_self _
  | case7 => cases h
  | case8 _ _ _ _ _ hs ih =>
    have := ih h
    have := length_lt_of_skipSpace hs
    simp only [SkipState.slack] at *
    omega
  | case9 => cases h
  | case10 _ first _ c rest hs _ _ ih =>
    have := ih h
    have := length_le_of_skipSpace hs
    have := length_itemStart_le first c rest
    simp only [SkipState.slack] at *
    omega
  | case11 => cases h
  | case12 _ first _ c rest hs _ after hk _ ih =>
    have := ih h
    have := length_le_of_skipSpace hs
    have := length_itemStart_le first c rest
    have := length_lt_of_skipKey hk
    simp only [SkipState.slack] at *
    omega

/-- Passes over a value. -/
def skipValue : Reader Unit := fun cs =>
  match h : skipFrames [] .value cs with
  | .error e => .error e
  | .ok rest => .ok ⟨(), rest, by
      have := length_of_skipFrames h
      simp only [SkipState.slack] at this
      omega⟩

end Json
end StepGraph
