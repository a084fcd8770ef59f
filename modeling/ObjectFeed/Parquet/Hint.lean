import ObjectFeed.Bytes
import ObjectFeed.Parquet.Kind
import ObjectFeed.Text.Base64

/-!
# Hints

A file may hold a second schema, which tells more precisely what columns stand for. It is a message
of tables: a table starts with the distance to a list of the places of its fields, and texts, lists
and tables in it are reached by distances.

* `Tables`: access to the parts of a message.
* `Hint.ofText?`: the hints of the columns and groups at the root.
-/

namespace ObjectFeed.Parquet

/-- A message of tables. -/
structure Tables where
  bytes : Array UInt8

namespace Tables

/-- The number in `size` bytes at a place. -/
def number (t : Tables) (size place : Nat) : Option Nat :=
  if place + size ≤ t.bytes.size then
    some (Bytes.littleEndian (t.bytes.extract place (place + size)).toList)
  else none

/-- The place that a distance leads to. -/
def follow (t : Tables) (place : Nat) : Option Nat := do return place + (← t.number 4 place)

/-- The place of a field of a table, or nothing where the field is not there. -/
def field? (t : Tables) (table slot : Nat) : Option Nat := do
  let places := (table - Bytes.signed 32 (← t.number 4 table)).toNat
  let size ← t.number 2 places
  let start := 4 + 2 * slot
  if size < start + 2 then none
  else
    match ← t.number 2 (places + start) with
    | 0 => none
    | distance => some (table + distance)

/-- The number in a field, or its value where it is not there. -/
def numberAt (t : Tables) (table slot size default : Nat) : Nat :=
  ((t.field? table slot).bind (t.number size)).getD default

/-- The text in a field. -/
def text? (t : Tables) (table slot : Nat) : Option String := do
  let place ← t.follow (← t.field? table slot)
  let size ← t.number 4 place
  if place + 4 + size ≤ t.bytes.size then
    Bytes.text? (t.bytes.extract (place + 4) (place + 4 + size)).toList
  else none

/-- The tables in a field with a list of them. -/
def tables (t : Tables) (table slot : Nat) : Option (List Nat) :=
  match t.field? table slot with
  | none => some []
  | some place => do
    let place ← t.follow place
    let n ← t.number 4 place
    if t.bytes.size < place + 4 + 4 * n then none
    else (List.range n).mapM fun i => t.follow (place + 4 + 4 * i)

end Tables

/-- What a column or a group stands for. -/
inductive Hint where
  | kind (k : Kind)
  | group (fields : List (String × Hint))
  | list (item : Hint)
  | map (key value : Hint)
  | other

namespace Hint

/-- A unit of time. -/
def unitOf : Nat → TimeUnit
  | 0 => .seconds
  | 1 => .millis
  | 2 => .micros
  | _ => .nanos

/-- The kind of a type without parts, by the number and the table of the type. -/
def kind? (t : Tables) (type table : Nat) : Option Kind :=
  match type with
  | 5 | 20 | 24 => some .text
  | 8 => some (if t.numberAt table 0 2 1 = 0 then .date else .dateMillis)
  | 9 => some (.time (unitOf (t.numberAt table 0 2 1)))
  | 10 => some (.timestamp (unitOf (t.numberAt table 0 2 0)) (t.text? table 1))
  | 18 => some (.duration (unitOf (t.numberAt table 0 2 1)))
  | _ => none

/-- The hint of a type with parts. -/
def ofParts (type : Nat) (parts : List (String × Hint)) : Hint :=
  match type, parts with
  | 13, parts => .group parts
  | 12, [(_, item)] | 16, [(_, item)] | 21, [(_, item)] => .list item
  | 17, [(_, .group [(_, key), (_, value)])] => .map key value
  | _, _ => .other

/-- The name and the hint of a field; `depth` bounds the nesting. -/
def ofField (t : Tables) : (depth field : Nat) → Option (String × Hint)
  | 0, _ => none
  | depth + 1, field => do
    let name := (t.text? field 0).getD ""
    let type := t.numberAt field 2 1 0
    let table ← t.follow (← t.field? field 3)
    match kind? t type table with
    | some k => return (name, .kind k)
    | none =>
      let parts ← (← t.tables field 5).mapM (ofField t depth)
      return (name, ofParts type parts)

/-- The deepest nesting of hints that are read. -/
def maxDepth : Nat := 64

/-- The start of a message before its length. -/
def start : Bytes := [0xFF, 0xFF, 0xFF, 0xFF]

/-- The hints in a text in base 64. -/
def ofText? (s : String) : Option (List (String × Hint)) := do
  let b ← Text.Base64.decode? s.toList
  -- the start and the length of the message may be missing
  let b := if 8 < b.length ∧ b.take 4 = start then b.drop 8 else b
  let t : Tables := ⟨b.toArray⟩
  let message ← t.follow 0
  if t.numberAt message 1 1 0 ≠ 1 then none
  let schema ← t.follow (← t.field? message 2)
  (← t.tables schema 1).mapM (ofField t maxDepth)

end Hint

end ObjectFeed.Parquet
