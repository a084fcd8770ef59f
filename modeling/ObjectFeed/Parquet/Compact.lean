import ObjectFeed.Varint

/-!
# Compact records

The binary form of the descriptions in a columnar file: records of numbered fields, whose values
are integers, texts, lists and records again.

* `Compact`: the values, with `Compact.field?` and the readers of single values.
* `Compact.read`: the record at the start of some bytes.
-/

namespace ObjectFeed.Parquet

/-- A value of a description. -/
inductive Compact where
  | bool (b : Bool)
  | int (n : Int)
  | double (bits : Nat)
  | bytes (b : Bytes)
  | list (xs : List Compact)
  /-- The fields of a record, last first. -/
  | record (fields : List (Int × Compact))
deriving Inhabited

namespace Compact

/-- The value of a field; of several with one number the last one counts. -/
def field? (n : Int) : Compact → Option Compact
  | .record fields => fields.lookup n
  | _ => none

/-- The value of a truth value. -/
def bool? : Compact → Option Bool
  | .bool b => some b
  | _ => none

/-- The value of an integer. -/
def int? : Compact → Option Int
  | .int n => some n
  | _ => none

/-- The value of an integer that is not negative. -/
def nat? (c : Compact) : Option Nat := c.int?.bind Int.toNat?

/-- The text of bytes. -/
def text? : Compact → Option String
  | .bytes b => b.text?
  | _ => none

/-- The elements of a list. -/
def list? : Compact → Option (List Compact)
  | .list xs => some xs
  | _ => none

/-- Readers of values. -/
abbrev Reader := StateT Bytes Option

namespace Reader

/-- One byte. -/
def byte : Reader Nat := fun b =>
  match b with
  | [] => none
  | x :: b => some (x.toNat, b)

/-- The next `n` bytes. -/
def take (n : Nat) : Reader Bytes := fun b =>
  let head := b.take n
  if head.length = n then some (head, b.drop n) else none

/-- A number. -/
def natural : Reader Nat := fun b => (Varint.read b).toOption

/-- An integer. -/
def integer : Reader Int := return Varint.toInt (← natural)

/-- `n` values. -/
def many (r : Reader Compact) : (n : Nat) → (acc : List Compact) → Reader (List Compact)
  | 0, acc => pure acc.reverse
  | n + 1, acc => do many r n ((← r) :: acc)

/-- A list: the number and the type of its elements in one byte if the number is small. -/
def list (value : (type : Nat) → Reader Compact) : Reader Compact := do
  let header ← byte
  let size ← if header / 16 = 15 then natural else pure (header / 16)
  let flag : Reader Compact := return .bool ((← byte) = 1)
  return .list (← many (if header % 16 ≤ 2 then flag else value (header % 16)) size [])

/-- The fields of a record, after those in `acc` (last first); `limit` bounds their number. -/
def fields (value : (type : Nat) → Reader Compact) :
    (limit : Nat) → (last : Int) → (acc : List (Int × Compact)) → Reader (List (Int × Compact))
  | 0, _, _ => failure
  | limit + 1, last, acc => do
    let header ← byte
    if header % 16 = 0 then pure acc
    else
      let n ← if header / 16 = 0 then integer else pure (last + (header / 16 : Nat))
      let x ← value (header % 16)
      fields value limit n ((n, x) :: acc)

/-- A record. -/
def record (value : (type : Nat) → Reader Compact) : Reader Compact := do
  return .record (← fields value ((← get).length + 1) 0 [])

/-- A value of a type; `depth` bounds the nesting. -/
def value : (depth : Nat) → (type : Nat) → Reader Compact
  | 0, _ => failure
  | depth + 1, type =>
    match type with
    | 1 => return .bool true
    | 2 => return .bool false
    | 3 => return .int (Bytes.signed 8 (← byte))
    | 4 | 5 | 6 => return .int (← integer)
    | 7 => return .double (Bytes.littleEndian (← take 8))
    | 8 => do return .bytes (← take (← natural))
    | 9 | 10 => list (value depth)
    | 12 => record (value depth)
    | _ => failure

/-- The deepest nesting of a description that is read. -/
def maxDepth : Nat := 64

end Reader

/-- The record at the start of the bytes, and the bytes after it. -/
def read (b : Bytes) : Option (Compact × Bytes) :=
  (Reader.record (Reader.value Reader.maxDepth)).run b

end Compact

end ObjectFeed.Parquet
