import StepGraph.Json.Fault

/-!
# Reading a text from the front

A reader takes a value off the front of a text and hands on the rest. The rest is shorter than the
text by the type of the result, which is what ends every loop over items or members. A reader of a
value first passes over spaces.

* `word` reads the rest of `null`, `true` or `false`.
* `colon` reads the colon after a key.
-/

namespace StepGraph
namespace Json

/-- A value read off the front of `cs`, and what is left. -/
structure Parsed (α : Type) (cs : List Char) where
  value : α
  rest : List Char
  shorter : rest.length < cs.length

/-- Reads a value off the front of a text. -/
abbrev Reader (α : Type) := (cs : List Char) → Except Fault (Parsed α cs)

variable {α β : Type}

namespace Parsed

/-- The same result for a text that is at least as long. -/
def widen {cs ds : List Char} (p : Parsed α cs) (h : cs.length ≤ ds.length) : Parsed α ds :=
  ⟨p.value, p.rest, Nat.lt_of_lt_of_le p.shorter h⟩

/-- Another value with the same rest. -/
def map {cs : List Char} (f : α → β) (p : Parsed α cs) : Parsed β cs :=
  ⟨f p.value, p.rest, p.shorter⟩

end Parsed

/-- Applies a function to what a reader reads. -/
def Reader.map (f : α → β) (r : Reader α) : Reader β := fun cs =>
  match r cs with
  | .ok p => .ok (p.map f)
  | .error e => .error e

/-- The four characters that may stand between tokens. -/
def isSpace (c : Char) : Bool := c == ' ' || c == '\t' || c == '\n' || c == '\r'

/-- Passes over spaces. -/
def skipSpace (cs : List Char) : List Char := cs.dropWhile isSpace

theorem length_skipSpace_le (cs : List Char) : (skipSpace cs).length ≤ cs.length :=
  (List.dropWhile_sublist _).length_le

theorem length_le_of_skipSpace {cs ds : List Char} (h : skipSpace cs = ds) :
    ds.length ≤ cs.length :=
  h ▸ length_skipSpace_le cs

theorem length_lt_of_skipSpace {cs : List Char} {c : Char} {rest : List Char}
    (h : skipSpace cs = c :: rest) : rest.length < cs.length :=
  Nat.lt_of_succ_le (length_le_of_skipSpace h)

/-- Reads a value by its first character that is no space. -/
def byFirst (read : (c : Char) → (rest : List Char) → Except Fault (Parsed α (c :: rest))) :
    Reader α := fun cs =>
  match h : skipSpace cs with
  | [] => .error (.endOfText .value)
  | c :: rest =>
    match read c rest with
    | .error e => .error e
    | .ok p => .ok (p.widen (length_le_of_skipSpace h))

/-- Goes on behind a character that has been read. -/
def behind (c : Char) (r : Reader α) (rest : List Char) : Except Fault (Parsed α (c :: rest)) :=
  match r rest with
  | .error e => .error e
  | .ok p => .ok (p.widen (Nat.le_succ _))

/-- Reads exactly the given letters. -/
def word (letters cs : List Char) : Except Fault (List Char) :=
  match letters, cs with
  | [], cs => .ok cs
  | _ :: _, [] => .error (.endOfText .value)
  | l :: letters, c :: cs => if c = l then word letters cs else .error .wordExpected

theorem length_le_of_word {letters cs rest : List Char} (h : word letters cs = .ok rest) :
    rest.length ≤ cs.length := by
  induction letters generalizing cs with
  | nil =>
    cases h
    exact Nat.le_refl _
  | cons l letters ih =>
    cases cs with
    | nil => cases h
    | cons c cs =>
      rw [word] at h
      split at h
      · exact Nat.le_succ_of_le (ih h)
      · cases h

/-- Reads the letters that follow `first`, and gives `value`. -/
def wordAfter (first : Char) (letters : List Char) (value : α) (rest : List Char) :
    Except Fault (Parsed α (first :: rest)) :=
  match h : word letters rest with
  | .ok r => .ok ⟨value, r, Nat.lt_succ_of_le (length_le_of_word h)⟩
  | .error e => .error e

/-- Reads the colon between a key and its value. -/
def colon : Reader Unit := fun cs =>
  match h : skipSpace cs with
  | [] => .error (.endOfText .object)
  | c :: rest =>
    if c = ':' then .ok ⟨(), rest, length_lt_of_skipSpace h⟩ else .error .colonExpected

/-- Reads a value after a colon. -/
def afterColon (r : Reader α) : Reader α := fun cs =>
  match colon cs with
  | .error e => .error e
  | .ok p =>
    match r p.rest with
    | .error e => .error e
    | .ok q => .ok (q.widen (Nat.le_of_lt p.shorter))

end Json
end StepGraph
