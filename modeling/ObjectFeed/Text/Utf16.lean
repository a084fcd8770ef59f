/-!
# UTF-16 code units

A character below U+10000 is one unit, any other is a high and a low surrogate.

* `unitsOf`, `units`: the units of a character and of a string.
* `units_append`: the units of a concatenation.
-/

namespace ObjectFeed.Text

/-- The UTF-16 code units of a character. -/
def unitsOf (c : Char) : List Nat :=
  if c.toNat < 0x10000 then [c.toNat]
  else [0xD800 + (c.toNat - 0x10000) / 0x400, 0xDC00 + (c.toNat - 0x10000) % 0x400]

/-- The UTF-16 code units of a string. -/
def units (s : String) : List Nat := s.toList.flatMap unitsOf

theorem units_append (a b : String) : units (a ++ b) = units a ++ units b := by
  simp [units]

end ObjectFeed.Text
