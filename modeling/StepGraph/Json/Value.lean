import StepGraph.Json.Numeral
import StepGraph.Json.StringText

/-!
# Reading JSON values

A value may stand at most 127 containers deep, itself included (`readJson`, `Json.ofText?`). A key
that comes again in an object keeps its first place and takes the last value.

The readers of containers go on behind an opening bracket or brace. A list is read item by item
with one reader. An object is read member by member into a state: `step` gets the state and the
key, reads the value with its colon, and gives the next state. So one loop serves objects of any
keys and records whose keys have a meaning.

`nextItem` and `nextKey` find where the next item or key starts, if the container goes on;
`endList` and `endObject` read its end.
-/

namespace StepGraph
namespace Json

variable {α σ : Type}

/-- Where the next item of a list starts, or `none` at the end of the list. All items but the first
follow a comma. -/
def nextItem (first : Bool) (cs : List Char) : Except Fault (Option (List Char)) :=
  match skipSpace cs with
  | [] => .error (.endOfText .list)
  | c :: rest =>
    if c = ']' then .ok none
    else if first then .ok (some (c :: rest))
    else if c = ',' then
      match skipSpace rest with
      | [] => .error (.endOfText .value)
      | d :: next => if d = ']' then .error .trailingComma else .ok (some (d :: next))
    else .error (.commaOrEndExpected .list)

theorem length_le_of_nextItem {first : Bool} {cs start : List Char}
    (h : nextItem first cs = .ok (some start)) : start.length ≤ cs.length := by
  unfold nextItem at h
  split at h
  · cases h
  rename_i c rest hs
  have hc := length_le_of_skipSpace hs
  split at h
  · cases h
  split at h
  · cases h
    exact hc
  split at h
  · split at h
    · cases h
    rename_i d next hr
    split at h
    · cases h
    · cases h
      exact Nat.le_trans (length_le_of_skipSpace hr) (Nat.le_of_lt hc)
  · cases h

/-- Reads the end of a list. -/
def endList : Reader Unit := fun cs =>
  match h : skipSpace cs with
  | [] => .error (.endOfText .list)
  | c :: rest =>
    if c = ']' then .ok ⟨(), rest, length_lt_of_skipSpace h⟩
    else if c = ',' ∧ (skipSpace rest).head? = some ']' then .error .trailingComma
    else .error .trailingCharacters

/-- Reads items to the end of the list. -/
def listItems (item : Reader α) (first : Bool) (cs : List Char) :
    Except Fault (Parsed (List α) cs) :=
  match hn : nextItem first cs with
  | .error e => .error e
  | .ok none => (endList.map fun _ => []) cs
  | .ok (some start) =>
    match item start with
    | .error e => .error e
    | .ok x =>
      match listItems item false x.rest with
      | .error e => .error e
      | .ok xs => .ok ((xs.map (x.value :: ·)).widen
          (Nat.le_trans (Nat.le_of_lt x.shorter) (length_le_of_nextItem hn)))
termination_by cs.length
decreasing_by exact Nat.lt_of_lt_of_le x.shorter (length_le_of_nextItem hn)

/-- Reads the items of a list behind its bracket. -/
def listBody (item : Reader α) : Reader (List α) := listItems item true

/-- The text behind the quote of the next key, or `none` at the end of the object. All keys but the
first follow a comma. -/
def nextKey (first : Bool) (cs : List Char) : Except Fault (Option (List Char)) :=
  match skipSpace cs with
  | [] => .error (.endOfText .object)
  | c :: rest =>
    if c = '\x7d' then .ok none
    else if first then if c = '"' then .ok (some rest) else .error .keyExpected
    else if c = ',' then
      match skipSpace rest with
      | [] => .error (.endOfText .value)
      | d :: next =>
        if d = '"' then .ok (some next)
        else if d = '\x7d' then .error .trailingComma
        else .error .keyExpected
    else .error (.commaOrEndExpected .object)

theorem length_lt_of_nextKey {first : Bool} {cs start : List Char}
    (h : nextKey first cs = .ok (some start)) : start.length < cs.length := by
  unfold nextKey at h
  split at h
  · cases h
  rename_i c rest hs
  have hc := length_lt_of_skipSpace hs
  split at h
  · cases h
  split at h
  · split at h
    · cases h
      exact hc
    · cases h
  split at h
  · split at h
    · cases h
    rename_i d next hr
    split at h
    · cases h
      exact Nat.lt_trans (length_lt_of_skipSpace hr) hc
    · split at h <;> cases h
  · cases h

/-- Reads the end of an object. -/
def endObject : Reader Unit := fun cs =>
  match h : skipSpace cs with
  | [] => .error (.endOfText .object)
  | c :: rest =>
    if c = '\x7d' then .ok ⟨(), rest, length_lt_of_skipSpace h⟩
    else if c = ',' then .error .trailingComma
    else .error .trailingCharacters

/-- Reads a member after the quote that opens its key. -/
def member (step : σ → String → Reader σ) (state : σ) : Reader σ := fun cs =>
  match stringAfterQuote cs with
  | .error e => .error e
  | .ok key =>
    match step state key.value key.rest with
    | .error e => .error e
    | .ok next => .ok (next.widen (Nat.le_of_lt key.shorter))

/-- Reads members to the end of the object. `finish` makes the result when the last member is read
and the brace still stands. -/
def objectMembers (step : σ → String → Reader σ) (finish : σ → Except Fault α) (first : Bool)
    (state : σ) (cs : List Char) : Except Fault (Parsed α cs) :=
  match hn : nextKey first cs with
  | .error e => .error e
  | .ok none =>
    match finish state with
    | .error e => .error e
    | .ok a => (endObject.map fun _ => a) cs
  | .ok (some start) =>
    match member step state start with
    | .error e => .error e
    | .ok m =>
      match objectMembers step finish false m.value m.rest with
      | .error e => .error e
      | .ok r => .ok (r.widen
          (Nat.le_of_lt (Nat.lt_trans m.shorter (length_lt_of_nextKey hn))))
termination_by cs.length
decreasing_by exact Nat.lt_trans m.shorter (length_lt_of_nextKey hn)

/-- Reads the members of an object behind its brace. -/
def objectBody (step : σ → String → Reader σ) (finish : σ → Except Fault α) (state : σ) :
    Reader α :=
  objectMembers step finish true state

/-- Reads the members of an object behind its brace, all values with one reader. -/
def dictBody (entry : Reader α) : Reader (Dict α) :=
  objectBody (fun d key => (afterColon entry).map (Dict.insert d key)) .ok []

/-! ## Values -/

/-- How many containers may stand inside one another. -/
def depthLimit : Nat := 127

/-- A number starts with this character. -/
def startsNumber (c : Char) : Bool := c == '-' || c.isDigit

/-- Reads a value that nests at most `depth` containers. -/
def readJson (depth : Nat) : Reader Json :=
  byFirst fun c rest =>
    if c = 'n' then wordAfter c ['u', 'l', 'l'] .null rest
    else if c = 't' then wordAfter c ['r', 'u', 'e'] (.bool true) rest
    else if c = 'f' then wordAfter c ['a', 'l', 's', 'e'] (.bool false) rest
    else if c = '"' then behind c (stringAfterQuote.map .string) rest
    else if startsNumber c then readNumber.map .number (c :: rest)
    else if c = '[' then
      match depth with
      | 0 => .error .tooDeep
      | depth + 1 => behind c ((listBody (readJson depth)).map .array) rest
    else if c = '\x7b' then
      match depth with
      | 0 => .error .tooDeep
      | depth + 1 => behind c ((dictBody (readJson depth)).map .object) rest
    else .error .valueExpected

/-- Reads a whole text. Only spaces may follow the value. -/
def readText (r : Reader α) (text : String) : Except Fault α :=
  match r text.toList with
  | .error e => .error e
  | .ok p =>
    match skipSpace p.rest with
    | [] => .ok p.value
    | _ :: _ => .error .trailingCharacters

/-- The value of a JSON text. -/
def ofText? (text : String) : Except Fault Json := readText (readJson depthLimit) text

end Json
end StepGraph
