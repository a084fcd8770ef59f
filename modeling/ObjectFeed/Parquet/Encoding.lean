import ObjectFeed.Parquet.Differences
import ObjectFeed.Parquet.Node

/-!
# Encodings of values

The ways in which a page holds the values of a column: plainly, by their places in a dictionary,
by their differences, or byte by byte. A page that ends early has the values before its end.

* `Stored`: a value as it is stored.
* `Encoding.values`: the values in the data of a page.
-/

namespace ObjectFeed.Parquet

/-- A value as it is stored. -/
inductive Stored where
  | flag (b : Bool)
  /-- A number by its bit pattern. -/
  | word (n : Nat)
  | bytes (b : Bytes)
deriving Inhabited, DecidableEq

/-- How a page holds its values. -/
inductive Encoding where
  | plain
  | dictionary
  | runs
  | differences
  | differentLengths
  | differentEnds
  | byteStreams
deriving DecidableEq, Repr

namespace Encoding

/-- The encoding with a number. -/
def ofNumber? : Int → Option Encoding
  | 0 => some .plain
  | 2 | 8 => some .dictionary
  | 3 => some .runs
  | 5 => some .differences
  | 6 => some .differentLengths
  | 7 => some .differentEnds
  | 9 => some .byteStreams
  | _ => none

/-- Values of `size` bytes, as long as there are whole ones. -/
def pieces (size : Nat) (make : Bytes → Stored) : (n : Nat) → Bytes → List Stored
  | 0, _ => []
  | n + 1, b =>
    let head := b.take size
    if head.length = size then make head :: pieces size make n (b.drop size) else []

/-- Values after their lengths. -/
def measured : (n : Nat) → Bytes → List Stored
  | 0, _ => []
  | n + 1, b =>
    let size := Bytes.littleEndian (b.take 4)
    let head := (b.drop 4).take size
    if 4 ≤ b.length ∧ head.length = size then .bytes head :: measured n (b.drop (4 + size)) else []

/-- The number of a pattern. -/
def word (b : Bytes) : Stored := .word (Bytes.littleEndian b)

/-- Values one after the other. -/
def plainValues (p : Physical) (n : Nat) (b : Bytes) : List Stored :=
  match p with
  | .boolean => (Runs.unpack 1 n b).map fun x => .flag (x = 1)
  | .int32 | .float => pieces 4 word n b
  | .int64 | .double => pieces 8 word n b
  | .int96 => pieces 12 word n b
  | .bytes => measured n b
  | .fixed size => pieces size .bytes n b

/-- The elements of a list that are there, up to the first that is not. -/
def present {α : Type} : List (Option α) → List α
  | some x :: xs => x :: present xs
  | _ => []

/-- Values by their places in a dictionary, after the width of the places. -/
def dictionaryValues (dictionary : Array Stored) (n : Nat) : Bytes → Option (List Stored)
  | [] => if n = 0 then some [] else none
  | width :: b =>
    if 32 < width.toNat then none
    else some (present ((Runs.expand width.toNat n b).map fun i => dictionary[i]?))

/-- Pieces of the given lengths, as long as there are whole ones. -/
def pieced : (lengths : List Nat) → Bytes → List Bytes
  | [], _ => []
  | n :: ns, b =>
    let head := b.take n
    if head.length = n then head :: pieced ns (b.drop n) else []

/-- Values that share a start of a given length with the one before. -/
def continued : (last : Bytes) → (shared : List Nat) → (ends : List Bytes) → List Bytes
  | last, n :: ns, e :: es =>
    if n ≤ last.length then
      let x := last.take n ++ e
      x :: continued x ns es
    else []
  | _, _, _ => []

/-- The `i`th bytes of all values, byte by byte. -/
def streams (size n : Nat) (b : Bytes) : List Bytes :=
  let data := b.toArray
  (List.range n).map fun i => (List.range size).map fun k => data.getD (k * n + i) 0

/-- The number of bytes that values take. -/
def width : Physical → Nat
  | .int32 | .float => 4
  | .int64 | .double => 8
  | .fixed size => size
  | _ => 0

/-- Up to `n` values in the data of a page, if they can be encoded in that way. -/
def values (p : Physical) (e : Encoding) (dictionary : Option (Array Stored)) (n : Nat)
    (b : Bytes) : Option (List Stored) := do
  match e, p with
  | .plain, _ => some (plainValues p n b)
  | .dictionary, _ => dictionaryValues (← dictionary) n b
  | .runs, .boolean =>
    let data := (b.drop 4).take (Bytes.littleEndian (b.take 4))
    return (Runs.expand 1 n data).map fun x => .flag (x = 1)
  | .differences, .int32 => return ((← Differences.decode 32 b).1.take n).map .word
  | .differences, .int64 => return ((← Differences.decode 64 b).1.take n).map .word
  | .differentLengths, .bytes =>
    let (lengths, b) ← Differences.decode 32 b
    return ((pieced lengths b).take n).map .bytes
  | .differentEnds, .bytes | .differentEnds, .fixed _ =>
    let (shared, b) ← Differences.decode 32 b
    let (lengths, b) ← Differences.decode 32 b
    return ((continued [] shared (pieced lengths b)).take n).map .bytes
  | .byteStreams, .fixed size => return (streams size (b.length / size) b).take n |>.map .bytes
  | .byteStreams, p =>
    if width p = 0 then none
    else return (streams (width p) (b.length / width p) b).take n |>.map word
  | _, _ => none

end Encoding

end ObjectFeed.Parquet
