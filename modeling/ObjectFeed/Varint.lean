import ObjectFeed.Bytes

/-!
# Numbers of varying length

A number is written in groups of seven bits, lowest first, and every byte but the last has its
high bit set. Integers are written by numbers that alternate in sign: 0, -1, 1, -2, and so on.

* `Varint.read`: the number at the start of some bytes, of at most ten bytes and modulo `2 ^ 64`.
* `Varint.write`: the bytes of a number.
* `Varint.toInt`, `Varint.ofInt`: integers by alternating numbers.
-/

namespace ObjectFeed.Varint

/-- Why a number cannot be read. -/
inductive Fault where
  /-- The bytes end within the number. -/
  | ends
  /-- The number has more bytes than 64 bits need. -/
  | tooLong
deriving DecidableEq, Repr

/-- The number at the start of the bytes, if `limit` bytes are enough for it. -/
def readUpTo : (limit : Nat) → Bytes → Except Fault (Nat × Bytes)
  | 0, _ => .error .tooLong
  | _ + 1, [] => .error .ends
  | limit + 1, x :: b =>
    if x.toNat < 128 then .ok (x.toNat, b)
    else
      match readUpTo limit b with
      | .ok (n, rest) => .ok (x.toNat % 128 + 128 * n, rest)
      | .error e => .error e

/-- The most bytes of a number. -/
def maxBytes : Nat := 10

/-- The number at the start of the bytes, of which 64 bits count. -/
def read (b : Bytes) : Except Fault (Nat × Bytes) :=
  (readUpTo maxBytes b).map fun (n, rest) => (n % pow2 64, rest)

/-- The bytes of a number. -/
def write (n : Nat) : Bytes :=
  if n < 128 then [UInt8.ofNat n] else UInt8.ofNat (n % 128 + 128) :: write (n / 128)
termination_by n
decreasing_by omega

/-- The integer at a place in the order 0, -1, 1, -2, ... -/
def toInt (n : Nat) : Int := if n % 2 = 0 then (n / 2 : Nat) else -(n / 2 : Nat) - 1

/-- The place of an integer in the order 0, -1, 1, -2, ... -/
def ofInt (i : Int) : Nat := if 0 ≤ i then 2 * i.natAbs else 2 * i.natAbs - 1

end ObjectFeed.Varint
