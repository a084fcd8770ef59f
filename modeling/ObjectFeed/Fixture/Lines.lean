import ObjectFeed.Bytes
import ObjectFeed.Decimal.Shortest

/-!
# Sample lines

An object with numbered records, for trying feeds out.

* `Fixture.lines`: the lines of JSON.
-/

namespace ObjectFeed.Fixture

/-- The line of a number. -/
def line (i : Nat) : List Char :=
  "\x7b\"id\":".toList ++ Decimal.digitsOf i ++ ",\"message\":\"record ".toList ++
    Decimal.digitsOf i ++ "\"\x7d\n".toList

/-- The lines of the numbers below `n`. -/
def lines (n : Nat) : String := String.ofList ((List.range n).flatMap line)

end ObjectFeed.Fixture
