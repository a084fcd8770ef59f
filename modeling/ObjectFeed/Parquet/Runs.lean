import ObjectFeed.Varint

/-!
# Packed numbers

Numbers of a fixed number of bits, lowest bits first, and sequences of numbers in which runs of
one number alternate with packed ones. What ends early has the numbers before its end.

* `Runs.unpack`: packed numbers.
* `Runs.expand`: a sequence with runs.
-/

namespace ObjectFeed.Parquet.Runs

/-- `n` numbers of `width` bits, from the lowest bits of a number on. -/
def digits (width : Nat) : (n : Nat) → Nat → List Nat
  | 0, _ => []
  | n + 1, x => x % pow2 width :: digits width n (x / pow2 width)

/-- Up to `n` packed numbers of `width` bits, eight of which fill whole bytes. -/
def unpack (width : Nat) : (n : Nat) → Bytes → List Nat
  | n, b =>
    if width = 0 then List.replicate n 0
    else if n = 0 ∨ b = [] then []
    else
      let head := b.take width
      let here := min (min n 8) (head.length * 8 / width)
      digits width here (Bytes.littleEndian head) ++
        if n ≤ 8 then [] else unpack width (n - 8) (b.drop width)
termination_by n => n

/-- The number of bytes that a number of a run takes. -/
def byteWidth (width : Nat) : Nat := (width + 7) / 8

/-- Up to `n` numbers of a sequence with runs, after those in `acc`; `limit` bounds the runs. A
run of length zero ends the sequence. -/
def expandFrom (width : Nat) : (limit n : Nat) → Bytes → (acc : Array Nat) → Array Nat
  | 0, _, _, acc => acc
  | _ + 1, 0, _, acc => acc
  | limit + 1, n, b, acc =>
    match Varint.read b with
    | .error _ => acc
    | .ok (0, _) => acc
    | .ok (header, b) =>
      if header % 2 = 1 then
        let size := header / 2 * width
        let xs := unpack width (min n (header / 2 * 8)) (b.take size)
        expandFrom width limit (n - xs.length) (b.drop size) (acc ++ xs)
      else
        let value := b.take (byteWidth width)
        if value.length < byteWidth width then acc
        else
          let k := min n (header / 2)
          expandFrom width limit (n - k) (b.drop (byteWidth width))
            (acc ++ List.replicate k (Bytes.littleEndian value))

/-- Up to `n` numbers of a sequence with runs. -/
def expand (width n : Nat) (b : Bytes) : List Nat :=
  (expandFrom width (b.length + 1) n b #[]).toList

end ObjectFeed.Parquet.Runs
