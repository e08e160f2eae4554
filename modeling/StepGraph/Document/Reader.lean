import StepGraph.Document.Shape
import StepGraph.Json.Skip
import StepGraph.Json.Value

/-!
# Reading documents

A document is read along its shape, so that a fault is found where it stands in the text: a value of
the wrong kind before anything behind it, a repeated field when its key is read, a missing field at
the end of its object.

* Fields that a closed record does not have are passed over. An open record keeps them.
* A name from a fixed list may be written as the only key of an object with the value `null`.
* Containers nest as deep as in any JSON text, those in unknown fields without limit.
-/

namespace StepGraph
namespace Document

open Json

variable {α : Type}

/-- The fault of a value that starts with `c` and is of the wrong kind. -/
def mismatch (expected : Expected) (c : Char) (rest : List Char) : Fault :=
  let wordFault (letters : List Char) (found : Found) : Fault :=
    match word letters rest with
    | .ok _ => .wrongKind found expected
    | .error e => e
  if c = 'n' then wordFault ['u', 'l', 'l'] .null
  else if c = 't' then wordFault ['r', 'u', 'e'] (.bool true)
  else if c = 'f' then wordFault ['a', 'l', 's', 'e'] (.bool false)
  else if c = '"' then
    match stringAfterQuote rest with
    | .ok p => .wrongKind (.string p.value) expected
    | .error e => e
  else if startsNumber c then
    match readNumber (c :: rest) with
    | .ok p => .wrongKind (.number p.value) expected
    | .error e => e
  else if c = '[' then .wrongKind (.container .list) expected
  else if c = '\x7b' then .wrongKind (.container .object) expected
  else .valueExpected

/-- Reads a text. -/
def readString : Reader String :=
  byFirst fun c rest =>
    if c = '"' then behind c stringAfterQuote rest else .error (mismatch .string c rest)

/-- Reads a truth value. -/
def readFlag : Reader Bool :=
  byFirst fun c rest =>
    if c = 't' then wordAfter c ['r', 'u', 'e'] true rest
    else if c = 'f' then wordAfter c ['a', 'l', 's', 'e'] false rest
    else .error (mismatch .boolean c rest)

/-- The signed 64-bit integer that a number is. -/
def toInt64 : Number → Except Fault Int64
  | .integer n _ =>
    if n < Number.signedLimit then .ok (Int64.ofInt n) else .error (.outsideInt64 n)
  | .float x => .error (.wrongKind (.number (.float x)) .int64)

/-- The float nearest to a number. -/
def toFinite64 : Number → Except Fault Finite64
  | .integer n _ => floatOf (n < 0) n.natAbs 0
  | .float x => .ok x

/-- Reads a number of a kind. -/
def readNumberAs (expected : Expected) (convert : Number → Except Fault α) : Reader α :=
  byFirst fun c rest =>
    if startsNumber c then
      match readNumber (c :: rest) with
      | .error e => .error e
      | .ok p =>
        match convert p.value with
        | .error e => .error e
        | .ok a => .ok (p.map fun _ => a)
    else .error (mismatch expected c rest)

/-- Reads a name from a table. -/
def readName (table : List (String × α)) : Reader α := fun cs =>
  match stringAfterQuote cs with
  | .error e => .error e
  | .ok p =>
    match Dict.get? table p.value with
    | some a => .ok (p.map fun _ => a)
    | none => .error (.unknownVariant p.value (Dict.keys table))

/-- Reads the word `null`. -/
def readNull : Reader Unit :=
  byFirst fun c rest =>
    if c = 'n' then wordAfter c ['u', 'l', 'l'] () rest else .error (mismatch .unit c rest)

/-- Reads the brace behind the only member of an object. -/
def readOnlyMemberEnd : Reader Unit := fun cs =>
  match h : skipSpace cs with
  | [] => .error (.endOfText .object)
  | c :: rest =>
    if c = '\x7d' then .ok ⟨(), rest, length_lt_of_skipSpace h⟩ else .error .valueExpected

/-- Reads a value, then something behind it that does not count. -/
def followedBy (r : Reader α) (after : Reader Unit) : Reader α := fun cs =>
  match r cs with
  | .error e => .error e
  | .ok p =>
    match after p.rest with
    | .error e => .error e
    | .ok q => .ok ⟨p.value, q.rest, Nat.lt_trans q.shorter p.shorter⟩

/-- Reads a name from a table as the first key of an object. -/
def readNameKey (table : List (String × α)) : Reader α := fun cs =>
  match h : nextKey true cs with
  | .error e => .error e
  | .ok none => .error .valueExpected
  | .ok (some start) =>
    match readName table start with
    | .error e => .error e
    | .ok p => .ok (p.widen (Nat.le_of_lt (length_lt_of_nextKey h)))

/-- Reads a name from a table, alone or as the key of an object. -/
def readVariant (depth : Nat) (table : List (String × α)) : Reader α :=
  byFirst fun c rest =>
    if c = '"' then behind c (readName table) rest
    else if c = '\x7b' then
      if depth = 0 then .error .tooDeep
      else
        let only := followedBy (readNameKey table) (afterColon readNull)
        behind c (followedBy only readOnlyMemberEnd) rest
    else .error .valueExpected

/-- Reads `null` as no value. -/
def orNull (r : Reader α) : Reader (Option α) := fun cs =>
  if (skipSpace cs).head? = some 'n' then
    byFirst (fun c rest => wordAfter c ['u', 'l', 'l'] none rest) cs
  else r.map some cs

/-- Reads the value of a field that is there. -/
def readPresent : (p : Presence α) → Reader α → Reader p.Carrier
  | .required, r | .defaulted _, r => r
  | .optional, r | .omittable, r => orNull r
  | .nullable, r => r.map some

/-- The values of the fields that have been read. -/
abbrev Draft : List Field → Type
  | [] => Unit
  | f :: fs => Option f.Carrier × Draft fs

namespace Draft

/-- No field has been read. -/
def empty : (fs : List Field) → Draft fs
  | [] => ()
  | _ :: fs => (none, empty fs)

/-- The reader of what follows the key of a field, if there is a field of this key. -/
def readMember? (read : (f : Field) → Reader f.Carrier) (key : String) :
    (fs : List Field) → Draft fs → Option (Reader (Draft fs))
  | [], () => none
  | f :: fs, (slot, rest) =>
    if f.key = key then
      match slot with
      | some _ => some fun _ => .error (.duplicateField key)
      | none => some ((afterColon (read f)).map fun value => (some value, rest))
    else (readMember? read key fs rest).map fun r => r.map fun rest => (slot, rest)

/-- The values of all fields, if those that are left out may be. -/
def finish : (fs : List Field) → Draft fs → Except Fault (Slots fs)
  | [], () => .ok ()
  | f :: fs, (slot, rest) =>
    match slot <|> f.presence.absent? with
    | none => .error (.missingField f.key)
    | some value => (finish fs rest).map fun values => (value, values)

end Draft

/-- Reads the value of a member of a record, which is a field or else kept or passed over. -/
def readRecordMember (r : Record) (depth : Nat) (read : (f : Field) → Reader f.Carrier)
    (state : Draft r.fields × Dict Json) (key : String) : Reader (Draft r.fields × Dict Json) :=
  match Draft.readMember? read key r.fields state.1 with
  | some reader => reader.map fun draft => (draft, state.2)
  | none =>
    if r.isOpen then
      (afterColon (readJson depth)).map fun value => (state.1, Dict.insert state.2 key value)
    else (afterColon skipValue).map fun _ => state

/-- Reads a record behind its brace. -/
def readMembers (r : Record) (depth : Nat) (read : (f : Field) → Reader f.Carrier) :
    Reader r.Carrier :=
  objectBody (readRecordMember r depth read)
    (fun state => (Draft.finish r.fields state.1).map fun slots => r.make slots state.2)
    (Draft.empty r.fields, [])

/-- Reads the values of fields from a list, up to its end. `count` fields have been read before. -/
def readElements (r : Record) (read : (f : Field) → Reader f.Carrier) (count : Nat) (first : Bool) :
    (fs : List Field) → Reader (Slots fs)
  | [] => endList
  | f :: fs => fun cs =>
    match h : nextItem first cs with
    | .error e => .error e
    | .ok none =>
      match f.presence.absentFromList? with
      | none => .error (.tooShort count r.name r.fields.length)
      | some value => (readElements r read (count + 1) first fs).map (fun vs => (value, vs)) cs
    | .ok (some start) =>
      match read f start with
      | .error e => .error e
      | .ok p =>
        match readElements r read (count + 1) false fs p.rest with
        | .error e => .error e
        | .ok q => .ok ((q.map fun vs => (p.value, vs)).widen
            (Nat.le_trans (Nat.le_of_lt p.shorter) (length_le_of_nextItem h)))

/-- Reads a record, given a reader for what is one container further in. -/
def readRecord (r : Record) (inner : Option (Nat × ((s : Shape) → Reader s.Carrier))) :
    Reader r.Carrier :=
  byFirst fun c rest =>
    if c = '\x7b' ∨ (c = '[' ∧ r.isOpen = false) then
      match inner with
      | none => .error .tooDeep
      | some (depth, read) =>
        let readField (f : Field) : Reader f.Carrier := readPresent f.presence (read f.shape)
        if c = '[' then
          behind c ((readElements r readField 0 true r.fields).map (r.make · [])) rest
        else behind c (readMembers r depth readField) rest
    else .error (mismatch (.record r.name) c rest)

/-- Reads a container that starts with `opening`, one container further in. -/
def readContainer (opening : Char) (expected : Expected) (body : Option (Reader α)) : Reader α :=
  byFirst fun c rest =>
    if c = opening then
      match body with
      | none => .error .tooDeep
      | some body => behind c body rest
    else .error (mismatch expected c rest)

/-- Reads what a shape holds, with at most `depth` containers inside one another. -/
def readShape : (depth : Nat) → (s : Shape) → Reader s.Carrier
  | depth, .any => readJson depth
  | _, .text => readString
  | _, .flag => readFlag
  | _, .int64 => readNumberAs .int64 toInt64
  | _, .float64 => readNumberAs .float64 toFinite64
  | depth, .contentType => readVariant depth ContentType.table
  | depth, .status => readVariant depth Run.Status.table
  | 0, .list _ => readContainer '[' .sequence none
  | depth + 1, .list item => readContainer '[' .sequence (some (listBody (readShape depth item)))
  | 0, .dict _ => readContainer '\x7b' .map none
  | depth + 1, .dict entry =>
    readContainer '\x7b' .map (some (dictBody (readShape depth entry)))
  | 0, .record r => readRecord r none
  | depth + 1, .record r => readRecord r (some (depth, readShape depth))

/-- Reads a whole document of the given shape. -/
def ofText? (s : Shape) (text : String) : Except Fault s.Carrier :=
  readText (readShape depthLimit s) text

end Document

/-- The schema that a text holds. -/
def Schema.ofText? (text : String) : Except Json.Fault Schema :=
  Document.ofText? (.record .schema) text

/-- The metadata that a text holds. -/
def Metadata.ofText? (text : String) : Except Json.Fault Metadata :=
  Document.ofText? (.record .metadata) text

/-- The graph that a text holds. -/
def Graph.ofText? (text : String) : Except Json.Fault Graph :=
  Document.ofText? (.record .graph) text

/-- The request that a text holds. -/
def Run.Request.ofText? (text : String) : Except Json.Fault Run.Request :=
  Document.ofText? (.record .request) text

/-- The response that a text holds. -/
def Run.Response.ofText? (text : String) : Except Json.Fault Run.Response :=
  Document.ofText? (.record .response) text

end StepGraph
