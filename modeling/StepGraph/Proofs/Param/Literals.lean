import StepGraph.Proofs.Result
import StepGraph.Substitution

/-!
# Literals pass through compiling unchanged

JSON values become parameters and parameters become JSON values, each kind of number by a rule of
its own. The two ways undo one another, with all that the second one adds written out in
`Param.settled`: templates for references, and the signed form for integers that have one.

* `substitute_ofJson`: a JSON value that is taken for a parameter compiles to itself.
* `ofJson_of_substitute`: what a parameter compiles to is the literal that the parameter settles to.
* `substitute_eq_ok_iff_settled`: so a parameter compiles to a JSON value if and only if it settles
  to the literal of the value.
-/

namespace StepGraph
namespace Param

/-! ## Numbers -/

theorem ofNumber_ofInt64 (n : Int64) : ofNumber (.ofInt64 n) = integer n := by
  have hlt : n.toInt < Number.signedLimit := n.toInt_lt
  rw [Number.ofInt64, ofNumber, if_pos hlt, Int64.ofInt_toInt]

theorem ofNumber_ofUInt64 (n : UInt64) : ofNumber (.ofUInt64 n) = ofUInt64 n := by
  rw [Number.ofUInt64, ofNumber, ofUInt64, Int.toNat_natCast, UInt64.ofNat_toNat]

/-- A number keeps its form: integers within 64 bits are exact, and a float stays a float. -/
theorem substitute_ofNumber (location : String) (x : Number) :
    substitute location (ofNumber x) = .ok (.number x) := by
  cases x with
  | float x => rfl
  | integer n hn =>
    rw [ofNumber]
    split
    · rename_i hlt
      have hvalue : (Int64.ofInt n).toInt = n := Int64.toInt_ofInt_of_le hn.1 hlt
      simp only [substitute, Number.ofInt64, hvalue]
    · rename_i hge
      have hsize : n.toNat < 2 ^ 64 := by omega
      have hvalue : ((UInt64.ofNat n.toNat).toNat : Int) = n := by
        rw [UInt64.toNat_ofNat_of_lt' hsize]
        have hlimit : Number.signedLimit = 0x8000000000000000 := rfl
        omega
      simp only [substitute, Number.ofUInt64, hvalue]

/-- The signed form of an unsigned integer is the equal one. -/
theorem ofUInt64_eq_integer_iff {n : UInt64} {m : Int64} :
    ofUInt64 n = integer m ↔ m.toInt = n.toNat := by
  have hnonneg : -2 ^ 63 ≤ (n.toNat : Int) := by omega
  have hm : m.toInt < Number.signedLimit := m.toInt_lt
  unfold ofUInt64
  split
  · rename_i hlt
    rw [integer.injEq]
    constructor
    · rintro rfl
      exact Int64.toInt_ofInt_of_le hnonneg hlt
    · rintro h
      rw [← h, Int64.ofInt_toInt]
  · rename_i hge
    refine iff_of_false nofun ?_
    omega

/-! ## Any literal -/

mutual

/-- A JSON value that is taken for a parameter compiles to itself, wherever it stands. -/
theorem substitute_ofJson (location : String) :
    (j : Json) → substitute location (ofJson j) = .ok j
  | .null | .bool _ | .string _ => rfl
  | .number x => substitute_ofNumber location x
  | .array items => by
    rw [ofJson, substitute, substituteItems_ofItems location 0 items]
    rfl
  | .object members => by
    rw [ofJson, substitute, substituteMembers_ofMembers location members]
    rfl

theorem substituteItems_ofItems (location : String) (index : Nat) :
    (js : List Json) → substituteItems location index (ofItems js) = .ok js
  | [] => rfl
  | j :: js => by
    rw [ofItems, substituteItems, substitute_ofJson _ j,
      substituteItems_ofItems location (index + 1) js]
    rfl

theorem substituteMembers_ofMembers (location : String) :
    (ms : List (String × Json)) → substituteMembers location (ofMembers ms) = .ok ms
  | [] => rfl
  | (_, j) :: ms => by
    rw [ofMembers, substituteMembers, substitute_ofJson _ j,
      substituteMembers_ofMembers location ms]
    rfl

end

/-! ## Any parameter -/

mutual

/-- The parameter with templates in the place of references, and with the signed form of every
integer that has one. -/
def settled : Param → Param
  | .unsigned n => ofUInt64 n
  | .array items => .array (settledItems items)
  | .object members => .object (settledMembers members)
  | .ref r => .string r.template
  | p => p

/-- `settled` on every item. -/
def settledItems : List Param → List Param
  | [] => []
  | p :: ps => settled p :: settledItems ps

/-- `settled` on every value. -/
def settledMembers : List (String × Param) → List (String × Param)
  | [] => []
  | (k, p) :: ms => (k, settled p) :: settledMembers ms

end

mutual

/-- What a parameter compiles to is the literal that it settles to. -/
theorem ofJson_of_substitute {location : String} {j : Json} :
    (p : Param) → substitute location p = .ok j → ofJson j = p.settled
  | .null, h | .bool _, h | .string _, h | .ref _, h | .float (.finite _), h => by
    cases h
    rfl
  | .integer n, h => by
    cases h
    exact ofNumber_ofInt64 n
  | .unsigned n, h => by
    cases h
    exact ofNumber_ofUInt64 n
  | .float (.infinite _), h | .float .nan, h => by cases h
  | .array items, h => by
    rw [substitute] at h
    obtain ⟨js, hjs, rfl⟩ := map_eq_ok.mp h
    rw [ofJson, settled, ofItems_of_substituteItems items hjs]
  | .object members, h => by
    rw [substitute] at h
    obtain ⟨js, hjs, rfl⟩ := map_eq_ok.mp h
    rw [ofJson, settled, ofMembers_of_substituteMembers members hjs]

theorem ofItems_of_substituteItems {location : String} {index : Nat} {js : List Json} :
    (ps : List Param) → substituteItems location index ps = .ok js →
      ofItems js = settledItems ps
  | [], h => by
    cases h
    rfl
  | p :: ps, h => by
    rw [substituteItems] at h
    obtain ⟨j, hj, h⟩ := bind_eq_ok.mp h
    obtain ⟨js, hjs, h⟩ := bind_eq_ok.mp h
    cases h
    rw [ofItems, settledItems, ofJson_of_substitute p hj, ofItems_of_substituteItems ps hjs]

theorem ofMembers_of_substituteMembers {location : String} {js : List (String × Json)} :
    (ms : List (String × Param)) → substituteMembers location ms = .ok js →
      ofMembers js = settledMembers ms
  | [], h => by
    cases h
    rfl
  | (_, p) :: ms, h => by
    rw [substituteMembers] at h
    obtain ⟨j, hj, h⟩ := bind_eq_ok.mp h
    obtain ⟨js, hjs, h⟩ := bind_eq_ok.mp h
    cases h
    rw [ofMembers, settledMembers, ofJson_of_substitute p hj,
      ofMembers_of_substituteMembers ms hjs]

end

mutual

/-- Settling changes nothing of what a parameter compiles to, nor why it does not. -/
theorem substitute_settled (location : String) :
    (p : Param) → substitute location p.settled = substitute location p
  | .null | .bool _ | .integer _ | .float _ | .string _ | .ref _ => rfl
  | .unsigned n => by
    rw [settled, ← ofNumber_ofUInt64, substitute_ofNumber, substitute]
  | .array items => by
    rw [settled, substitute, substitute, substituteItems_settledItems location 0 items]
  | .object members => by
    rw [settled, substitute, substitute, substituteMembers_settledMembers location members]

theorem substituteItems_settledItems (location : String) (index : Nat) : (ps : List Param) →
    substituteItems location index (settledItems ps) = substituteItems location index ps
  | [] => rfl
  | p :: ps => by
    rw [settledItems, substituteItems, substituteItems, substitute_settled _ p,
      substituteItems_settledItems location (index + 1) ps]

theorem substituteMembers_settledMembers (location : String) : (ms : List (String × Param)) →
    substituteMembers location (settledMembers ms) = substituteMembers location ms
  | [] => rfl
  | (_, p) :: ms => by
    rw [settledMembers, substituteMembers, substituteMembers, substitute_settled _ p,
      substituteMembers_settledMembers location ms]

end

/-- Literals of JSON compile to themselves, at any location, and a parameter compiles to a value if
and only if it settles to the literal of the value: references become templates, unsigned integers
with an equal signed one become that one, and nothing else changes. -/
theorem substitute_eq_ok_iff_settled (location : String) :
    (∀ j, substitute location (ofJson j) = .ok j) ∧
      (∀ p j, substitute location p = .ok j ↔ ofJson j = p.settled) ∧
      ∀ (n : UInt64) (m : Int64), (unsigned n).settled = integer m ↔ m.toInt = n.toNat := by
  refine ⟨substitute_ofJson location, fun p j => ⟨ofJson_of_substitute p, fun h => ?_⟩,
    fun n m => ?_⟩
  · rw [← substitute_settled, ← h]
    exact substitute_ofJson location j
  · exact ofUInt64_eq_integer_iff

end Param
end StepGraph
