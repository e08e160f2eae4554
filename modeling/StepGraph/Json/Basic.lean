import StepGraph.Dict
import StepGraph.Number.Binary64

/-!
# JSON values

An integer within 64 bits is kept as it is, signed or unsigned; every other number is a finite
64-bit floating-point number. Integers and floats are different values even where they are equal
as numbers. The members of an object keep their order.
-/

namespace StepGraph

/-- A JSON number. -/
inductive Number where
  /-- At least `-2 ^ 63` and less than `2 ^ 64`. -/
  | integer (value : Int)
      (bounded : -0x8000000000000000 ≤ value ∧ value < 0x10000000000000000 := by omega)
  | float (value : Finite64)
  deriving DecidableEq, Repr

/-- A JSON value. -/
inductive Json where
  | null
  | bool (value : Bool)
  | number (value : Number)
  | string (value : String)
  | array (items : List Json)
  | object (members : List (String × Json))
  deriving Inhabited

/-- An integer below this one fits into 64 bits with a sign. -/
def Number.signedLimit : Int := 0x8000000000000000

/-- A signed 64-bit integer as a JSON number. -/
def Number.ofInt64 (n : Int64) : Number :=
  .integer n.toInt ⟨n.le_toInt, Int.lt_trans n.toInt_lt (by decide)⟩

/-- An unsigned 64-bit integer as a JSON number. -/
def Number.ofUInt64 (n : UInt64) : Number :=
  .integer n.toNat ⟨by omega, by have := n.toNat_lt; omega⟩

/-- Equal as numbers of the same kind. -/
def Number.same : Number → Number → Bool
  | .integer a _, .integer b _ => a == b
  | .float a, .float b => a.sameValue b
  | _, _ => false

namespace Json

mutual

/-- Equal values; the order of members does not count. -/
def same : Json → Json → Bool
  | .null, .null => true
  | .bool a, .bool b => a == b
  | .number a, .number b => a.same b
  | .string a, .string b => a == b
  | .array as, .array bs => sameItems as bs
  | .object as, .object bs => as.length == bs.length && sameMembers as bs
  | _, _ => false

/-- Equal values at equal places. -/
def sameItems : List Json → List Json → Bool
  | [], [] => true
  | a :: as, b :: bs => same a b && sameItems as bs
  | _, _ => false

/-- Every member has an equal one of the same key in `bs`. -/
def sameMembers : List (String × Json) → Dict Json → Bool
  | [], _ => true
  | (k, a) :: as, bs =>
    (match Dict.get? bs k with
      | some b => same a b
      | none => false) && sameMembers as bs

end

mutual

/-- Leaves one member of each key, with the last value at the first place. -/
def merged : Json → Json
  | .array items => .array (mergedItems items)
  | .object members => .object (Dict.ofList (mergedMembers members))
  | j => j

/-- `merged` on every item. -/
def mergedItems : List Json → List Json
  | [] => []
  | j :: js => merged j :: mergedItems js

/-- `merged` on every value. -/
def mergedMembers : List (String × Json) → List (String × Json)
  | [] => []
  | (k, j) :: ms => (k, merged j) :: mergedMembers ms

end

/-- The member `key`, if there is a value for it. -/
def optionalMember {α : Type} (key : String) (toJson : α → Json) :
    Option α → List (String × Json)
  | some a => [(key, toJson a)]
  | none => []

end Json
end StepGraph
