import StepGraph.Json.Basic
import StepGraph.Number.Shortest

/-!
# JSON values as text

A layout says what stands around the tokens. The compact layout adds nothing; the indented layout
puts every item and member on a line of its own, two blanks further in than its container. Empty
containers stay together in both.

In a string a quote, a backslash and the characters below U+0020 are escaped, five of the latter by
a letter and the others by four hexadecimal digits. Every other character stands for itself.

A value is written in front of the text that follows it (`write`), so that reading can be stated for
any text behind a value.
-/

namespace StepGraph

/-- The text of a float: the fewest digits that round to it, those of an equally short pair with an
even end. It is positional from 10⁻⁵ up to and without 10¹⁶. -/
def Finite64.jsonChars (x : Finite64) : List Char :=
  let d := x.magnitude.shortest .even
  x.withSign (if -5 < d.point ∧ d.point ≤ 16 then d.positional else d.scientific)

namespace Json

/-- The lower-case hexadecimal digit of `n < 16`. -/
def hexDigit (n : Nat) : Char :=
  if n < 10 then Char.ofNat ('0'.toNat + n) else Char.ofNat ('a'.toNat + (n - 10))

/-- A character inside a JSON string. -/
def escape (c : Char) : List Char :=
  if c = '"' then ['\\', '"']
  else if c = '\\' then ['\\', '\\']
  else if c = '\x08' then ['\\', 'b']
  else if c = '\x0c' then ['\\', 'f']
  else if c = '\n' then ['\\', 'n']
  else if c = '\r' then ['\\', 'r']
  else if c = '\t' then ['\\', 't']
  else if c.toNat < 0x20 then
    ['\\', 'u', '0', '0', hexDigit (c.toNat / 16), hexDigit (c.toNat % 16)]
  else [c]

/-- What the text of an escaped character is made of. -/
def escapeChars : List Char :=
  ['\\', '"', 'b', 'f', 'n', 'r', 't', 'u', '0', '1', '2', '3', '4', '5', '6', '7', '8', '9', 'a',
    'c', 'd', 'e']

theorem hexDigit_mem_escapeChars : ∀ n < 16, hexDigit n ∈ escapeChars := by decide

/-- A character stands for itself or is escaped. -/
theorem escape_cases (c : Char) : escape c = [c] ∨ escape c ⊆ escapeChars := by
  have hletter {d : Char} (hd : d ∈ escapeChars) : ['\\', d] ⊆ escapeChars :=
    List.cons_subset.mpr ⟨by decide, List.cons_subset.mpr ⟨hd, List.nil_subset _⟩⟩
  unfold escape
  -- the quote, the backslash and the five control characters that have a letter
  iterate 7
    split
    · exact .inr (hletter (by decide))
  split
  · have hhigh := hexDigit_mem_escapeChars (c.toNat / 16) (by omega)
    have hlow := hexDigit_mem_escapeChars (c.toNat % 16) (by omega)
    refine .inr ?_
    simp only [List.cons_subset, hhigh, hlow, List.nil_subset, and_true]
    decide
  · exact .inl rfl

theorem escape_ne_nil (c : Char) : escape c ≠ [] := by
  unfold escape
  repeat' split
  all_goals exact List.cons_ne_nil _ _

/-- The JSON string that holds `cs`, with its quotes. -/
def quoteChars (cs : List Char) : List Char :=
  '"' :: (cs.flatMap escape ++ ['"'])

/-- The JSON string that holds `s`, with its quotes. -/
def quote (s : String) : String :=
  String.ofList (quoteChars s.toList)

/-- The text of a whole number. -/
def intChars (n : Int) : List Char :=
  if n < 0 then '-' :: Decimal.digitChars n.natAbs else Decimal.digitChars n.natAbs

/-- The text of a number. -/
def numberChars : Number → List Char
  | .integer n _ => intChars n
  | .float x => x.jsonChars

/-- What a text has around its tokens. -/
structure Layout where
  /-- What follows a colon. -/
  afterColon : List Char
  /-- What stands before an item `depth` containers in, and before the end of such a container. -/
  lineBreak : (depth : Nat) → List Char

/-- Nothing but the tokens. -/
def Layout.compact : Layout := ⟨[], fun _ => []⟩

/-- A line for each item and member. -/
def Layout.indented : Layout := ⟨[' '], fun depth => '\n' :: List.replicate (2 * depth) ' '⟩

/-- A key and its colon, with `rest` behind them. -/
def writeKey (l : Layout) (key : String) (rest : List Char) : List Char :=
  quoteChars key.toList ++ ':' :: (l.afterColon ++ rest)

mutual

/-- The text of a value that stands `depth` containers in, with `rest` behind it. -/
def write (l : Layout) (depth : Nat) (j : Json) (rest : List Char) : List Char :=
  match j with
  | .null => 'n' :: 'u' :: 'l' :: 'l' :: rest
  | .bool true => 't' :: 'r' :: 'u' :: 'e' :: rest
  | .bool false => 'f' :: 'a' :: 'l' :: 's' :: 'e' :: rest
  | .number n => numberChars n ++ rest
  | .string s => quoteChars s.toList ++ rest
  | .array [] => '[' :: ']' :: rest
  | .array (j :: js) =>
    '[' :: (l.lineBreak (depth + 1) ++ write l (depth + 1) j
      (writeItems l (depth + 1) js (l.lineBreak depth ++ ']' :: rest)))
  | .object [] => '\x7b' :: '\x7d' :: rest
  | .object ((k, j) :: ms) =>
    '\x7b' :: (l.lineBreak (depth + 1) ++ writeKey l k (write l (depth + 1) j
      (writeMembers l (depth + 1) ms (l.lineBreak depth ++ '\x7d' :: rest))))

/-- Further items, each after a comma, with `rest` behind them. -/
def writeItems (l : Layout) (depth : Nat) (js : List Json) (rest : List Char) : List Char :=
  match js with
  | [] => rest
  | j :: js => ',' :: (l.lineBreak depth ++ write l depth j (writeItems l depth js rest))

/-- Further members, each after a comma, with `rest` behind them. -/
def writeMembers (l : Layout) (depth : Nat) (ms : List (String × Json)) (rest : List Char) :
    List Char :=
  match ms with
  | [] => rest
  | (k, j) :: ms =>
    ',' :: (l.lineBreak depth ++ writeKey l k (write l depth j (writeMembers l depth ms rest)))

end

/-- The text of a value without blanks. -/
def compact (j : Json) : String := String.ofList (write .compact 0 j [])

/-- The text of a value over several lines. -/
def indented (j : Json) : String := String.ofList (write .indented 0 j [])

end Json
end StepGraph
