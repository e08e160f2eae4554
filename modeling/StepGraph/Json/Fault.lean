import StepGraph.Json.Printer
import StepGraph.Text.Quoted

/-!
# What can be wrong with a JSON text

A text can break off, break the grammar, or hold a value of the wrong kind for its place. A fault
is the cause; `Fault.message` is its wording.
-/

namespace StepGraph
namespace Json

/-- What the text breaks off in. -/
inductive Unfinished where
  | value
  | list
  | object
  | string
  deriving DecidableEq, Repr

/-- The containers of JSON. -/
inductive Container where
  | list
  | object
  deriving DecidableEq, Repr

/-- A value in the wrong place. -/
inductive Found where
  | null
  | bool (value : Bool)
  | number (value : Number)
  | string (value : String)
  | container (kind : Container)
  deriving DecidableEq, Repr

/-- What a place asks for. -/
inductive Expected where
  | string
  | boolean
  | int64
  | float64
  | map
  | sequence
  /-- The `null` after the name of a variant. -/
  | unit
  /-- A record of the given name. -/
  | record (name : String)
  deriving DecidableEq, Repr

/-- Why a text cannot be read. -/
inductive Fault where
  /-- The text ends too early. -/
  | endOfText (within : Unfinished)
  /-- No value starts here. -/
  | valueExpected
  /-- A word starts like `null`, `true` or `false` and goes on differently. -/
  | wordExpected
  | colonExpected
  /-- An item or member is followed by neither a comma nor the end of its container. -/
  | commaOrEndExpected (within : Container)
  /-- A comma stands before the end of a container. -/
  | trailingComma
  /-- The text goes on after the value. -/
  | trailingCharacters
  /-- A member does not start with a string. -/
  | keyExpected
  | badNumber
  /-- A number rounds to infinity. -/
  | numberTooLarge
  | badEscape
  | controlCharacter
  /-- An escaped surrogate is not part of a pair. -/
  | loneSurrogate
  /-- An escaped leading surrogate is followed by something else than an escape. -/
  | pairExpected
  /-- Too many containers stand inside one another. -/
  | tooDeep
  /-- The value is of the wrong kind. -/
  | wrongKind (found : Found) (expected : Expected)
  /-- The integer does not fit into 64 bits with a sign. -/
  | outsideInt64 (value : Int)
  /-- A record in the form of a list has only `count` of its `fields` values. -/
  | tooShort (count : Nat) (record : String) (fields : Nat)
  | unknownVariant (name : String) (known : List String)
  | duplicateField (key : String)
  | missingField (key : String)
  deriving DecidableEq, Repr

/-- The name of what is unfinished, with its article. -/
def Unfinished.text : Unfinished → String
  | value => "a value"
  | list => "a list"
  | object => "an object"
  | string => "a string"

/-- The value as a message shows it. -/
def Found.text : Found → String
  | null => "null"
  | bool value => "boolean `" ++ (if value then "true" else "false") ++ "`"
  | number (.integer n h) => "integer `" ++ String.ofList (numberChars (.integer n h)) ++ "`"
  | number (.float x) => "floating point `" ++ String.ofList x.jsonChars ++ "`"
  | string s => "string " ++ Text.quoted s
  | container .list => "sequence"
  | container .object => "map"

/-- The expectation as a message shows it. -/
def Expected.text : Expected → String
  | string => "a string"
  | boolean => "a boolean"
  | int64 => "i64"
  | float64 => "f64"
  | map => "a map"
  | sequence => "a sequence"
  | unit => "unit"
  | record name => "struct " ++ name

/-- A name as a message shows it. -/
def ticked (name : String) : String := "`" ++ name ++ "`"

/-- The wording of a fault. -/
def Fault.message : Fault → String
  | endOfText within => "EOF while parsing " ++ within.text
  | valueExpected => "expected value"
  | wordExpected => "expected ident"
  | colonExpected => "expected `:`"
  | commaOrEndExpected .list => "expected `,` or `]`"
  | commaOrEndExpected .object => "expected `,` or `\x7d`"
  | trailingComma => "trailing comma"
  | trailingCharacters => "trailing characters"
  | keyExpected => "key must be a string"
  | badNumber => "invalid number"
  | numberTooLarge => "number out of range"
  | badEscape => "invalid escape"
  | controlCharacter => "control character (\\u0000-\\u001F) found while parsing a string"
  | loneSurrogate => "lone leading surrogate in hex escape"
  | pairExpected => "unexpected end of hex escape"
  | tooDeep => "recursion limit exceeded"
  | wrongKind found expected => "invalid type: " ++ found.text ++ ", expected " ++ expected.text
  | outsideInt64 n => "invalid value: integer `" ++ String.ofList (intChars n) ++ "`, expected i64"
  | tooShort count record fields =>
    "invalid length " ++ toString count ++ ", expected struct " ++ record ++ " with " ++
      toString fields ++ (if fields = 1 then " element" else " elements")
  | unknownVariant name known =>
    "unknown variant " ++ ticked name ++ ", expected one of " ++
      ", ".intercalate (known.map ticked)
  | duplicateField key => "duplicate field " ++ ticked key
  | missingField key => "missing field " ++ ticked key

end Json
end StepGraph
