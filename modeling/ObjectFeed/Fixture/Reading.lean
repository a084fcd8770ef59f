import ObjectFeed.Bytes
import ObjectFeed.Json

/-!
# Sample readings

Numbered readings of three sensors, for trying feeds out.

* `Reading.sample`: the reading with a number.
-/

namespace ObjectFeed.Fixture

/-- What a sensor measured. -/
structure Reading where
  id : Nat
  sensor : String
  value : Double

namespace Reading

/-- The reading with a number: sensors take turns, and values grow by a half. -/
def sample (i : Nat) : Reading :=
  { id := i, sensor := "s" ++ toString (i % 3), value := .ofQuotient false i 2 }

/-- The readings with the numbers below `n`. -/
def samples (n : Nat) : List Reading := (List.range n).map sample

/-- A reading as an object. -/
def json (r : Reading) : Json :=
  .ofMembers
    [("id", .ofNat r.id), ("sensor", .string r.sensor), ("value", .number (.float r.value))]

end Reading

end ObjectFeed.Fixture
