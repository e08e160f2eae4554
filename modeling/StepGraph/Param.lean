import StepGraph.Json.Basic
import StepGraph.Number.Shortest
import StepGraph.Template
import StepGraph.Text.Quoted

/-!
# Parameters

A parameter is a tree of literals with references as leaves. Literals are those of JSON, with two
additions: floats may be infinite or not a number, and an integer has either a signed or an unsigned
form of 64 bits.

* `Param.references` lists the references in the order of the tree.
* `Param.ofJson` is the literal of a JSON value. Integers are signed where they can be.
-/

namespace StepGraph

/-- A value given to a step, or part of one. -/
inductive Param where
  | null
  | bool (value : Bool)
  | integer (value : Int64)
  /-- Meant for what is too large for `integer`. -/
  | unsigned (value : UInt64)
  | float (value : Binary64)
  | string (value : String)
  | array (items : List Param)
  | object (members : List (String × Param))
  /-- A value that the remote engine looks up. -/
  | ref (reference : Reference)
  deriving Inhabited

namespace Param

mutual

/-- The references in a parameter, first to last. -/
def references : Param → List Reference
  | .ref r => [r]
  | .array items => itemReferences items
  | .object members => memberReferences members
  | _ => []

/-- The references in a list. -/
def itemReferences : List Param → List Reference
  | [] => []
  | p :: ps => references p ++ itemReferences ps

/-- The references in the values of an object. -/
def memberReferences : List (String × Param) → List Reference
  | [] => []
  | (_, p) :: ms => references p ++ memberReferences ms

end

/-- An unsigned integer, in the signed form if that has room for it. -/
def ofUInt64 (n : UInt64) : Param :=
  if n.toNat < Number.signedLimit then integer (Int64.ofInt n.toNat) else unsigned n

/-- A JSON number. -/
def ofNumber : Number → Param
  | .integer n _ =>
    if n < Number.signedLimit then integer (Int64.ofInt n) else unsigned (UInt64.ofNat n.toNat)
  | .float x => float (.finite x)

mutual

/-- The literal of a JSON value. -/
def ofJson : Json → Param
  | .null => null
  | .bool b => bool b
  | .number n => ofNumber n
  | .string s => string s
  | .array items => array (ofItems items)
  | .object members => object (ofMembers members)

/-- `ofJson` on every item. -/
def ofItems : List Json → List Param
  | [] => []
  | j :: js => ofJson j :: ofItems js

/-- `ofJson` on every value. -/
def ofMembers : List (String × Json) → List (String × Param)
  | [] => []
  | (k, j) :: ms => (k, ofJson j) :: ofMembers ms

end

/-- How many items a list has, for a reader. -/
def itemCount (items : List Param) : String := "[" ++ toString items.length ++ " items]"

/-- A parameter in short, for a reader: containers by their size. -/
def display : Param → String
  | .null => "null"
  | .bool b => if b then "true" else "false"
  | .integer n => toString n.toInt
  | .unsigned n => toString n.toNat
  | .float x => x.plain
  | .string s => Text.quoted s
  | .array items => itemCount items
  | .object members => "\x7b" ++ toString members.length ++ " keys\x7d"
  | .ref r => r.template

end Param
end StepGraph
