import ObjectFeed.Binary
import ObjectFeed.Dict

/-!
# JSON values

A number is an integer or a 64-bit binary number, and the two kinds are never equal. The members
of an object are kept in key order.

* `Json`, `Number`: the values.
* `Json.same`: equality of values, under which the two zeros of the binary format are equal.
* `Json.ofMembers`, `Json.getObject?`: objects from and to dictionaries.
-/

namespace ObjectFeed

/-- A JSON number. -/
inductive Number where
  | int (n : Int)
  | float (x : Double)
deriving DecidableEq, Repr, Inhabited

/-- Equality of numbers of one kind by value. -/
def Number.same : Number → Number → Bool
  | .int m, .int n => m == n
  | .float x, .float y => x.same y
  | _, _ => false

/-- A JSON value. -/
inductive Json where
  | null
  | bool (b : Bool)
  | number (n : Number)
  | string (s : String)
  | array (xs : List Json)
  | object (ms : List (String × Json))
deriving Repr, Inhabited

namespace Json

mutual

/-- Equality of values. -/
def same : Json → Json → Bool
  | .null, .null => true
  | .bool a, .bool b => a == b
  | .number m, .number n => m.same n
  | .string s, .string t => s == t
  | .array xs, .array ys => sameElements xs ys
  | .object ms, .object ns => sameMembers ms ns
  | _, _ => false

/-- Equality of arrays, element by element. -/
def sameElements : List Json → List Json → Bool
  | [], [] => true
  | x :: xs, y :: ys => same x y && sameElements xs ys
  | _, _ => false

/-- Equality of objects, member by member. -/
def sameMembers : List (String × Json) → List (String × Json) → Bool
  | [], [] => true
  | (k, x) :: ms, (l, y) :: ns => k == l && same x y && sameMembers ms ns
  | _, _ => false

end

/-- An integer as a value. -/
def ofInt (n : Int) : Json := .number (.int n)

/-- A natural number as a value. -/
def ofNat (n : Nat) : Json := ofInt n

/-- An optional value, null when there is none. -/
def ofOption {α : Type} (f : α → Json) : Option α → Json
  | none => .null
  | some x => f x

/-- The object with the members of a dictionary. -/
def ofDict (d : Dict Json) : Json := .object d.members

/-- The object with the members; of several with one key the last one counts. -/
def ofMembers (ms : List (String × Json)) : Json := .object (Members.ofList ms)

/-- The text of a string. -/
def text? : Json → Option String
  | .string s => some s
  | _ => none

/-- The value of a non-negative integer below `2 ^ bits`. -/
def natural? (bits : Nat) : Json → Option Nat
  | .number (.int n) => if 0 ≤ n ∧ n < pow2 bits then some n.toNat else none
  | _ => none

/-- The members of an object. -/
def getObject? : Json → Option (Dict Json)
  | .object ms => some (.ofList ms)
  | _ => none

end Json

/-- Free-form named values. -/
abbrev Properties := Dict Json

/-- Equality of properties, value by value. -/
def Properties.same (p q : Properties) : Bool := Json.sameMembers p.members q.members

end ObjectFeed
