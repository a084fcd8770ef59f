import ObjectFeed.Power

/-!
# Bytes

Byte sequences, their reading as UTF-8 text and their hexadecimal form.

* `Bytes.ofText`, `Bytes.text?`: UTF-8 in both directions; invalid UTF-8 has no text.
* `Bytes.hex`: two lower-case digits a byte.
* `Bytes.littleEndian`, `Bytes.bigEndian`: the number a sequence spells.
-/

namespace ObjectFeed

/-- A sequence of bytes. -/
abbrev Bytes := List UInt8

namespace Bytes

/-- The UTF-8 form of a text. -/
def ofText (s : String) : Bytes := s.toUTF8.data.toList

/-- The text that the bytes spell in UTF-8, if they are valid. -/
def text? (b : Bytes) : Option String := String.fromUTF8? ⟨b.toArray⟩

/-- Two lower-case hexadecimal digits a byte. -/
def hex (b : Bytes) : String :=
  String.ofList (b.flatMap fun x => [Nat.digitChar (x.toNat / 16), Nat.digitChar (x.toNat % 16)])

/-- The number whose base-256 digits are the bytes, least significant first. -/
def littleEndian (b : Bytes) : Nat := b.foldr (fun x n => x.toNat + 256 * n) 0

/-- The number whose base-256 digits are the bytes, most significant first. -/
def bigEndian (b : Bytes) : Nat := b.foldl (fun n x => 256 * n + x.toNat) 0

/-- The `size` bytes of `n`, least significant first. -/
def ofLittleEndian : (size n : Nat) → Bytes
  | 0, _ => []
  | size + 1, n => UInt8.ofNat n :: ofLittleEndian size (n / 256)

/-- The integer in `[-2 ^ (bits - 1), 2 ^ (bits - 1))` congruent to `n` modulo `2 ^ bits`. -/
def signed (bits n : Nat) : Int :=
  let r := n % pow2 bits
  if r < pow2 (bits - 1) then r else (r : Int) - pow2 bits

end Bytes

end ObjectFeed
