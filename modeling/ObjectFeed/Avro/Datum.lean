import ObjectFeed.Bytes
import ObjectFeed.Json

/-!
# Avro data

The values of Avro types, less what only their types tell. A datum has a JSON form unless it holds
a number that is not finite.

* `Datum`: the values.
* `Datum.json?`: the JSON form of a value.
-/

namespace ObjectFeed.Avro

/-- A value of a type. -/
inductive Datum where
  | null
  | bool (b : Bool)
  | int (n : Int)
  /-- A binary number, if it is finite. -/
  | float (x : Option Double)
  | bytes (b : Bytes)
  /-- The digits of a decimal. -/
  | decimal (b : Bytes)
  | text (s : String)
  | array (xs : List Datum)
  | object (ms : List (String × Datum))
deriving Inhabited

namespace Datum

/-- Bytes as a list of numbers. -/
def bytesJson (b : Bytes) : Json := .array (b.map fun x => .ofNat x.toNat)

mutual

/-- The JSON form: a list of numbers for bytes, none for a decimal without digits. -/
def json? : Datum → Option Json
  | .null => some .null
  | .bool b => some (.bool b)
  | .int n => some (.ofInt n)
  | .float x => x.map fun x => .number (.float x)
  | .bytes b => some (bytesJson b)
  | .decimal b => if b.isEmpty then none else some (bytesJson b)
  | .text s => some (.string s)
  | .array xs => (elementsJson? xs).map .array
  | .object ms => (membersJson? ms).map .ofMembers

/-- The JSON forms of the elements of a list. -/
def elementsJson? : List Datum → Option (List Json)
  | [] => some []
  | x :: xs => do return (← x.json?) :: (← elementsJson? xs)

/-- The JSON forms of the members of an object. -/
def membersJson? : List (String × Datum) → Option (List (String × Json))
  | [] => some []
  | (k, x) :: ms => do return (k, ← x.json?) :: (← membersJson? ms)

end

end Datum

end ObjectFeed.Avro
