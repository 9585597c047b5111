import HamlTree.Dictionary
import HamlTree.Json.Number

/-!
# JSON values

A value keeps the members of an object in the order in which they are written, repeated names
included. What becomes of repetition and order is up to whoever uses the value; `Value.normalize`
sorts the members of every object and keeps the last value of a name.
-/

namespace HamlTree.Json

/-- A JSON value. -/
inductive Value where
  /-- The literal `null`. -/
  | null
  /-- A truth value. -/
  | bool (b : Bool)
  /-- A number. -/
  | number (n : Number)
  /-- A string. -/
  | string (s : String)
  /-- An array. -/
  | array (items : List Value)
  /-- An object. -/
  | object (members : List (String × Value))
deriving Inhabited

namespace Value

mutual

/-- How many arrays and objects enclose the innermost one, itself counted; scalars have none. -/
def depth : Value → Nat
  | array items => depthItems items + 1
  | object members => depthMembers members + 1
  | _ => 0

/-- The greatest depth among items. -/
def depthItems : List Value → Nat
  | [] => 0
  | v :: items => max (depth v) (depthItems items)

/-- The greatest depth among members. -/
def depthMembers : List (String × Value) → Nat
  | [] => 0
  | (_, v) :: members => max (depth v) (depthMembers members)

end

mutual

/-- The same value with the members of each object sorted by name, the last of a name kept. -/
def normalize : Value → Value
  | array items => array (normalizeItems items)
  | object members => object (sortEntries (normalizeMembers members))
  | v => v

/-- Normalize each item. -/
def normalizeItems : List Value → List Value
  | [] => []
  | v :: items => normalize v :: normalizeItems items

/-- Normalize each member. -/
def normalizeMembers : List (String × Value) → List (String × Value)
  | [] => []
  | (name, v) :: members => (name, normalize v) :: normalizeMembers members

end

end Value

end HamlTree.Json
