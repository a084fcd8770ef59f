import ObjectFeed.Json.Printer

/-!
# Offsets

The progress of one object is the number of its records that were delivered, under an identity
made of the bucket, the destination and the key. An offset may carry further properties, which
never have the names of its own ones.

* `OffsetKey`: identities; `OffsetKey.properties` is the form under which they are persisted.
* `Offset`: identity, count and further properties.
* `Offset.properties`, `Offset.ofProperties`: to and from the persisted form.
* `OffsetError`: why properties are no offset.
-/

namespace ObjectFeed

/-- The identity under which the progress of an object is kept. -/
structure OffsetKey where
  bucket : String
  topic : String
  partition : Option UInt32
  objectKey : String
deriving DecidableEq, Repr, Inhabited

namespace OffsetKey

/-- The number of a partition as a value. -/
def partitionJson (p : Option UInt32) : Json := .ofOption (fun n : UInt32 => .ofNat n.toNat) p

/-- The persisted form. -/
def properties (k : OffsetKey) : Properties :=
  .ofList
    [("bucket", .string k.bucket), ("topic", .string k.topic),
      ("partition", partitionJson k.partition), ("objectKey", .string k.objectKey)]

/-- The order of partitions, none first. -/
def comparePartitions : Option UInt32 → Option UInt32 → Ordering
  | none, none => .eq
  | none, some _ => .lt
  | some _, none => .gt
  | some m, some n => compare m n

/-- The order of identities: by bucket, topic, partition and key. -/
def compare (a b : OffsetKey) : Ordering :=
  (Ord.compare a.bucket b.bucket).then <| (Ord.compare a.topic b.topic).then <|
    (comparePartitions a.partition b.partition).then (Ord.compare a.objectKey b.objectKey)

end OffsetKey

/-- The names of the properties that an offset owns. -/
def ownedNames : List String := ["bucket", "objectKey", "topic", "partition", "recordCount"]

/-- Why properties are no offset. -/
inductive OffsetError where
  | missing (name : String)
  | notText (name : String) (found : Json)
  | notPartition (found : Json)
  | notCount (found : Json)
  | rejected (reason : String)

/-- The wording of a cause. -/
def OffsetError.message : OffsetError → String
  | .missing name => "missing '" ++ name ++ "' property"
  | .notText name found => "'" ++ name ++ "' must be a string, got " ++ found.compact
  | .notPartition found => "'partition' must be a partition number, got " ++ found.compact
  | .notCount found => "'recordCount' must be a non-negative integer, got " ++ found.compact
  | .rejected reason => reason

/-- The progress of one object. -/
structure Offset where
  key : OffsetKey
  /-- The number of records that were delivered. -/
  count : Nat := 0
  /-- Properties other than the owned ones. -/
  extra : Properties := ∅

namespace Offset

/-- The text under a name. -/
def textAt (p : Properties) (name : String) : Except OffsetError String :=
  match p.get? name with
  | some (.string s) => .ok s
  | some v => .error (.notText name v)
  | none => .error (.missing name)

/-- The partition, which may be null but not missing. -/
def partitionOf (p : Properties) : Except OffsetError (Option UInt32) :=
  match p.get? "partition" with
  | none => .error (.missing "partition")
  | some .null => .ok none
  | some v =>
    match v.natural? 32 with
    | some n => .ok (some n.toUInt32)
    | none => .error (.notPartition v)

/-- The count, zero if it is null or missing. -/
def countOf (p : Properties) : Except OffsetError Nat :=
  match p.get? "recordCount" with
  | none => .ok 0
  | some .null => .ok 0
  | some v =>
    match v.natural? 64 with
    | some n => .ok n
    | none => .error (.notCount v)

/-- The properties other than the owned ones. -/
def unowned (p : Properties) : Properties := ownedNames.foldl Dict.erase p

/-- The offset that was persisted as the properties. -/
def ofProperties (p : Properties) : Except OffsetError Offset := do
  let bucket ← textAt p "bucket"
  let topic ← textAt p "topic"
  let objectKey ← textAt p "objectKey"
  let partition ← partitionOf p
  let count ← countOf p
  return { key := { bucket, topic, partition, objectKey }, count, extra := unowned p }

/-- The persisted form. -/
def properties (o : Offset) : Properties :=
  (o.extra.merge o.key.properties).insert "recordCount" (.ofNat o.count)

/-- The value of a property, owned ones included. -/
def property? (o : Offset) (name : String) : Option Json :=
  if name = "recordCount" then some (.ofNat o.count)
  else if name ∈ ownedNames then o.key.properties.get? name
  else o.extra.get? name

/-- Sets a property, unless the offset owns it. -/
def setProperty (o : Offset) (name : String) (v : Json) : Option Offset :=
  if name ∈ ownedNames then none else some { o with extra := o.extra.insert name v }

/-- Counts one more record in 64 bits, from zero again after the largest count. -/
def increment (o : Offset) : Offset := { o with count := (o.count + 1) % pow2 64 }

/-- The offset after one more record of an object, which has fewer records than 64 bits have
counts. -/
def next (o : Offset) : Offset := { o with count := o.count + 1 }

theorem increment_eq_next {o : Offset} (h : o.count + 1 < pow2 64) : o.increment = o.next := by
  rw [increment, Nat.mod_eq_of_lt h, next]

theorem count_increment_lt (o : Offset) : o.increment.count < pow2 64 :=
  Nat.mod_lt _ (Nat.two_pow_pos 64)

/-- Counts again from the first record. -/
def rewind (o : Offset) : Offset := { o with count := 0 }

/-- Raises the count to a bound that it may not end below. -/
def raiseTo (o : Offset) (floor : Nat) : Offset := { o with count := max o.count floor }

/-- Equality of offsets, with properties compared by value. -/
def same (a b : Offset) : Bool := a.key == b.key && a.count == b.count && a.extra.same b.extra

end Offset

end ObjectFeed
