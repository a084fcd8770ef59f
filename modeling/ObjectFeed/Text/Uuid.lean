/-!
# UUIDs

128-bit identifiers: their text has 32 hexadecimal digits in groups of 8, 4, 4, 4 and 12.

* `Uuid.ofText?`: the digits of a text, which may also be undivided, in braces, or a URN.
* `Uuid.ofBytes`: the digits of 16 bytes.
* `Uuid.text`: the usual form, with small letters.
-/

namespace ObjectFeed.Text

/-- The 32 digits of an identifier, with small letters. -/
structure Uuid where
  digits : List Char
deriving DecidableEq, Repr

namespace Uuid

/-- A hexadecimal digit as a small letter. -/
def hexDigit? (c : Char) : Option Char :=
  let c := c.toLower
  if c.isDigit ∨ ('a' ≤ c ∧ c ≤ 'f') then some c else none

/-- The digits of an undivided text. -/
def undivided? (cs : List Char) : Option Uuid :=
  if cs.length = 32 then (cs.mapM hexDigit?).map Uuid.mk else none

/-- The digits of a text with its groups. -/
def grouped? (cs : List Char) : Option Uuid :=
  if cs.length = 36 ∧ [8, 13, 18, 23].all fun i => cs[i]? == some '-' then
    undivided? (cs.filter (· ≠ '-'))
  else none

/-- The digits of a text. -/
def ofText? (s : String) : Option Uuid :=
  let cs := s.toList
  let urn := "urn:uuid:".toList
  if cs.length = 32 then undivided? cs
  else if cs.length = 36 then grouped? cs
  else if cs.head? = some '{' ∧ cs.getLast? = some '}' then grouped? (cs.drop 1).dropLast
  else if urn.isPrefixOf cs then grouped? (cs.drop urn.length)
  else none

/-- The digits of 16 bytes. -/
def ofBytes (b : List UInt8) : Uuid :=
  ⟨b.flatMap fun x => [Nat.digitChar (x.toNat / 16), Nat.digitChar (x.toNat % 16)]⟩

/-- The digits in their groups. -/
def text (u : Uuid) : String :=
  let part (start size : Nat) : String := String.ofList ((u.digits.drop start).take size)
  "-".intercalate [part 0 8, part 8 4, part 12 4, part 16 4, part 20 12]

end Uuid

end ObjectFeed.Text
