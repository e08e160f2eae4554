import StepGraph.Json.Fault
import StepGraph.Param

/-!
# Parameters as JSON

Compiling a parameter keeps its literals and puts a template in the place of every reference. JSON
has no infinite numbers, so the first one that is not finite stops the work: the error tells its
place, as a path of keys and positions from where the work started.
-/

namespace StepGraph

/-- Why a chain has no wire form, or a text is not the wire form of one. -/
inductive SerializationError where
  /-- A number at `location` is not finite. -/
  | nonFiniteNumber (location : String) (value : Binary64)
  /-- The text cannot be read. -/
  | json (fault : Json.Fault)
  deriving DecidableEq, Repr

/-- The wording of the error. -/
def SerializationError.message : SerializationError → String
  | nonFiniteNumber location value =>
    "Value at '" ++ location ++ "' is not serializable: " ++ value.plain ++
      " is not a finite number"
  | json fault => "Failed to encode compiled chain: " ++ fault.message

namespace Param

/-- The place of a member. -/
def memberLocation (location key : String) : String := location ++ "." ++ key

/-- The place of an item. -/
def itemLocation (location : String) (index : Nat) : String :=
  location ++ "[" ++ toString index ++ "]"

mutual

/-- The wire form of a parameter that stands at `location`. -/
def substitute (location : String) : Param → Except SerializationError Json
  | .null => .ok .null
  | .bool b => .ok (.bool b)
  | .integer n => .ok (.number (.ofInt64 n))
  | .unsigned n => .ok (.number (.ofUInt64 n))
  | .float (.finite x) => .ok (.number (.float x))
  | .float x => .error (.nonFiniteNumber location x)
  | .string s => .ok (.string s)
  | .array items => (substituteItems location 0 items).map .array
  | .object members => (substituteMembers location members).map .object
  | .ref r => .ok (.string r.template)

/-- The wire form of the items of a list from position `index` on. -/
def substituteItems (location : String) (index : Nat) :
    List Param → Except SerializationError (List Json)
  | [] => .ok []
  | p :: ps => do
    let j ← substitute (itemLocation location index) p
    let js ← substituteItems location (index + 1) ps
    return j :: js

/-- The wire form of the members of an object. -/
def substituteMembers (location : String) :
    List (String × Param) → Except SerializationError (List (String × Json))
  | [] => .ok []
  | (k, p) :: ms => do
    let j ← substitute (memberLocation location k) p
    let js ← substituteMembers location ms
    return (k, j) :: js

end

end Param
end StepGraph
