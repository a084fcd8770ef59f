import ObjectFeed.Parquet.Runs

/-!
# Differences

A sequence of integers is held as its first one and blocks of differences, each reduced by the
least difference of its block and packed in groups. All sums wrap at the width of the integers.

* `Differences.decode`: the numbers of a sequence.
-/

namespace ObjectFeed.Parquet.Differences

/-- The numbers of a group of differences, each after the one before; the last one comes last. -/
def accumulate (bits : Nat) (least : Int) : (last : Nat) → List Nat → List Nat
  | _, [] => []
  | last, d :: ds =>
    let x := (((last : Int) + least + d) % pow2 bits).toNat
    x :: accumulate bits least x ds

/-- The numbers of the groups of a block of which `n` are wanted, and what follows the block. -/
def groups (bits size : Nat) (least : Int) : (n last : Nat) → (widths : List Nat) → Bytes →
    (acc : Array Nat) → Array Nat × Bytes
  | _, _, [], b, acc => (acc, b)
  | 0, _, _ :: _, b, acc => (acc, b)
  | n, last, width :: widths, b, acc =>
    let bytes := width * size / 8
    let xs := accumulate bits least last (Runs.unpack width (min n size) (b.take bytes))
    if xs.length < min n size then (acc ++ xs, [])
    else
      groups bits size least (n - xs.length) (xs.getLast?.getD last) widths (b.drop bytes)
        (acc ++ xs)

/-- The numbers of the blocks of which `n` are wanted, and what follows them; `limit` bounds the
blocks. -/
def blocks (bits perBlock size : Nat) : (limit n last : Nat) → Bytes → (acc : Array Nat) →
    Array Nat × Bytes
  | 0, _, _, b, acc => (acc, b)
  | _ + 1, 0, _, b, acc => (acc, b)
  | limit + 1, n, last, b, acc =>
    match Varint.read b with
    | .error _ => (acc, b)
    | .ok (least, b) =>
      let widths := (b.take perBlock).map UInt8.toNat
      let (xs, rest) :=
        groups bits size (Varint.toInt least) n last widths (b.drop perBlock) #[]
      if xs.isEmpty then (acc, rest)
      else blocks bits perBlock size limit (n - xs.size) (xs.back?.getD last) rest (acc ++ xs)

/-- The numbers of a sequence of differences, and what follows it. -/
def decode (bits : Nat) (b : Bytes) : Option (List Nat × Bytes) := do
  let (blockSize, b) ← (Varint.read b).toOption
  let (perBlock, b) ← (Varint.read b).toOption
  let (total, b) ← (Varint.read b).toOption
  let (first, b) ← (Varint.read b).toOption
  if perBlock = 0 ∨ blockSize % (8 * perBlock) ≠ 0 then none
  else if total = 0 then some ([], b)
  else
    let first := (Varint.toInt first % pow2 bits).toNat
    let (xs, rest) :=
      blocks bits perBlock (blockSize / perBlock) (b.length + 1) (total - 1) first b #[]
    some (first :: xs.toList, rest)

end ObjectFeed.Parquet.Differences
