import StepGraph.Json.Reader

/-!
# Reading JSON strings

A string ends at the first quote that is not escaped. Characters below U+0020 must be escaped. An
escape with four hexadecimal digits gives a UTF-16 unit; a character above U+FFFF takes two of
them, a leading and a trailing surrogate, and a surrogate outside such a pair is a fault.
-/

namespace StepGraph
namespace Json

/-- The value of a hexadecimal digit. -/
def hexValue? (c : Char) : Option Nat :=
  if '0' ≤ c ∧ c ≤ '9' then some (c.toNat - '0'.toNat)
  else if 'a' ≤ c ∧ c ≤ 'f' then some (c.toNat - 'a'.toNat + 10)
  else if 'A' ≤ c ∧ c ≤ 'F' then some (c.toNat - 'A'.toNat + 10)
  else none

/-- The value of four hexadecimal digits. -/
def fourHex? (a b c d : Char) : Option Nat := do
  let a ← hexValue? a
  let b ← hexValue? b
  let c ← hexValue? c
  let d ← hexValue? d
  return ((a * 16 + b) * 16 + c) * 16 + d

/-- The length of a text in UTF-8. -/
def byteCount (cs : List Char) : Nat := cs.foldl (fun n c => n + c.utf8Size) 0

/-- Reads four hexadecimal digits. A text of less than four bytes breaks off here. -/
def readUnit : Reader Nat
  | a :: b :: c :: d :: rest =>
    match fourHex? a b c d with
    | some n => .ok ⟨n, rest, by simp only [List.length_cons]; omega⟩
    | none => .error .badEscape
  | cs => if byteCount cs < 4 then .error (.endOfText .string) else .error .badEscape

/-- The unit is the first of a pair. -/
def isLeading (n : Nat) : Bool := 0xD800 ≤ n && n ≤ 0xDBFF

/-- The unit is the second of a pair. -/
def isTrailing (n : Nat) : Bool := 0xDC00 ≤ n && n ≤ 0xDFFF

/-- The character that a pair of units stands for. -/
def ofPair (leading trailing : Nat) : Char :=
  Char.ofNat (0x10000 + (leading - 0xD800) * 0x400 + (trailing - 0xDC00))

/-- Reads the trailing unit of a pair, with its escape. -/
def readTrailing (leading : Nat) : Reader Char
  | [] => .error (.endOfText .string)
  | [c] => if c = '\\' then .error (.endOfText .string) else .error .pairExpected
  | c :: d :: rest =>
    if c = '\\' ∧ d = 'u' then
      match readUnit rest with
      | .error e => .error e
      | .ok p =>
        if isTrailing p.value then
          .ok ((p.map (ofPair leading)).widen (by simp only [List.length_cons]; omega))
        else .error .loneSurrogate
    else .error .pairExpected

/-- Reads the character of an escape with digits, after its `u`. -/
def readCodePoint : Reader Char := fun cs =>
  match readUnit cs with
  | .error e => .error e
  | .ok p =>
    if isTrailing p.value then .error .loneSurrogate
    else if isLeading p.value then
      match readTrailing p.value p.rest with
      | .error e => .error e
      | .ok q => .ok (q.widen (Nat.le_of_lt p.shorter))
    else .ok (p.map Char.ofNat)

/-- The character that an escape letter stands for. -/
def ofEscapeLetter? (c : Char) : Option Char :=
  if c = '"' then some '"'
  else if c = '\\' then some '\\'
  else if c = '/' then some '/'
  else if c = 'b' then some '\x08'
  else if c = 'f' then some '\x0c'
  else if c = 'n' then some '\n'
  else if c = 'r' then some '\r'
  else if c = 't' then some '\t'
  else none

/-- Reads what follows a backslash. -/
def readEscape : Reader Char
  | [] => .error (.endOfText .string)
  | c :: rest =>
    if c = 'u' then behind c readCodePoint rest
    else match ofEscapeLetter? c with
      | some d => .ok ⟨d, rest, Nat.lt_add_one rest.length⟩
      | none => .error .badEscape

/-- Reads to the end of a string, behind the characters `seen`, which come last first. -/
def stringTail (seen cs : List Char) : Except Fault (List Char × List Char) :=
  match cs with
  | [] => .error (.endOfText .string)
  | c :: rest =>
    if c = '"' then .ok (seen.reverse, rest)
    else if c = '\\' then
      match readEscape rest with
      | .error e => .error e
      | .ok p => stringTail (p.value :: seen) p.rest
    else if c.toNat < 0x20 then .error .controlCharacter
    else stringTail (c :: seen) rest
termination_by cs.length
decreasing_by
  · exact Nat.lt_succ_of_lt p.shorter
  · exact Nat.lt_succ_self _

theorem length_lt_of_stringTail {seen cs s rest : List Char}
    (h : stringTail seen cs = .ok (s, rest)) : rest.length < cs.length := by
  induction hn : cs.length using Nat.strongRecOn generalizing seen cs with
  | ind n ih =>
    subst hn
    rw [stringTail.eq_def] at h
    split at h
    · cases h
    · split at h
      · cases h
        exact Nat.lt_succ_self _
      · split at h
        · split at h
          · cases h
          · rename_i p _
            have hp := p.shorter
            have := ih _ (Nat.lt_succ_of_lt hp) h rfl
            simp only [List.length_cons]
            omega
        · split at h
          · cases h
          · have := ih _ (Nat.lt_succ_self _) h rfl
            simp only [List.length_cons]
            omega

/-- Reads a string after its opening quote. -/
def stringAfterQuote : Reader String := fun cs =>
  match h : stringTail [] cs with
  | .error e => .error e
  | .ok (s, rest) => .ok ⟨String.ofList s, rest, length_lt_of_stringTail h⟩

end Json
end StepGraph
