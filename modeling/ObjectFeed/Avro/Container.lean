import ObjectFeed.Avro.Datum.Reader
import ObjectFeed.Avro.Schema.Canonical
import ObjectFeed.Avro.Schema.Reader
import ObjectFeed.Error
import ObjectFeed.Inflate
import ObjectFeed.Json.Reader
import ObjectFeed.Record

/-!
# Avro containers

A container has a header with its schema, its compression and a marker, and then blocks of
records, each followed by the marker. Records are read by the schema of the container, which
describes them in its canonical form.

* `Container.ofBody?`: the container in a body.
* `Container.next`: the next record.
-/

namespace ObjectFeed.Avro

/-- How blocks are compressed. -/
inductive Compression where
  | none
  | deflate
deriving DecidableEq, Repr

namespace Compression

/-- The compression that a header names, none if it names nothing. -/
def ofHeader? : Option Bytes → Option Compression
  | .none => some .none
  | .some b =>
    match Bytes.text? b with
    | .some "null" => some .none
    | .some "deflate" => some .deflate
    | _ => .none

/-- The bytes of a block before its compression. -/
def undo : Compression → Bytes → Option Bytes
  | .none, b => some b
  | .deflate, b => Inflate.inflate b

end Compression

/-- A container whose header was read. -/
structure Container where
  schema : Schema
  definitions : Schema.Definitions
  /-- The canonical form of the schema. -/
  description : String
  compression : Compression
  marker : Bytes
  /-- The bytes after the current block. -/
  rest : Bytes
  /-- A read after the rest fails; otherwise the container ends there. -/
  isBroken : Bool
  /-- The records of the current block that are left. -/
  left : Nat := 0
  /-- The bytes of these records. -/
  block : Bytes := []
  /-- The records that were read. -/
  count : Nat := 0

namespace Container

open Datum (Reader)

/-- The first bytes of every container. -/
def magic : Bytes := [0x4F, 0x62, 0x6A, 0x01]

/-- The number of bytes of a marker. -/
def markerSize : Nat := 16

/-- A member of the header. -/
def headerMember : Reader (String × Bytes) := do
  match ← Reader.string with
  | .text k => return (k, ← Reader.counted)
  | _ => failure

/-- The members of the header; of several with one name the last one counts. -/
def header : Reader (Members Bytes) := do
  let m ← Reader.take magic.length
  if m ≠ magic then failure
  return Members.ofList (← Reader.sequence headerMember)

/-- The schema in a header. -/
def schema? (ms : Members Bytes) : Option Schema := do
  let text ← Bytes.text? (← ms.get? "avro.schema")
  Schema.ofJson? (← (Json.parse text.toList).toOption)

/-- The container in a body, unless its header is malformed. -/
def ofBody? (body : Body) : Option Container := do
  let (bytes, fault) := body.content
  let (ms, rest) ← header.run bytes
  let schema ← schema? ms
  let definitions ← schema.definitions
  let compression ← Compression.ofHeader? (ms.get? "avro.codec")
  let (marker, rest) ← (Reader.take markerSize).run rest
  return { schema, definitions, description := schema.canonical, compression, marker, rest,
           isBroken := fault.isSome }

/-- The bytes of a block: their number, the bytes and the marker. -/
def blockBytes (c : Container) : Reader Bytes := do
  let b ← Reader.counted
  let m ← Reader.take markerSize
  if m ≠ c.marker then failure
  c.compression.undo b

/-- Goes on to the next block, if there is one, or fails. The container ends where the number of
the records of a block would have to begin or go on. -/
def advance (c : Container) : Option Container :=
  match Varint.read c.rest with
  -- nothing is left, or a part of a number
  | .error .ends => if c.isBroken then none else some { c with rest := [] }
  | .error .tooLong => none
  | .ok (n, rest) => do
    let (block, rest) ← c.blockBytes.run rest
    return { c with left := (Varint.toInt n % pow2 64).toNat, block, rest }

/-- The next datum of the current block. It takes some bytes unless there are none. -/
def datum (c : Container) : Option (Datum × Container) := do
  let (x, block) ← Datum.read c.definitions c.schema c.block
  if c.block ≠ [] ∧ block.length = c.block.length then none
  else some (x, { c with block, left := c.left - 1, count := c.count + 1 })

/-- The record of a datum. -/
def record (c : Container) (x : Datum) : Except DecodeError (Option Record) :=
  match x.json? with
  | some v => .ok (some { schema := c.description, payload := .structured v })
  | none => .error (.convertRecord c.count)

/-- The next record, or nothing at the end. -/
def next (c : Container) : Except DecodeError (Option Record) × Container :=
  match if c.left = 0 then c.advance else some c with
  | none => (.error (.readRecord (c.count + 1)), c)
  | some c =>
    if c.left = 0 then (.ok none, c)
    else
      match c.datum with
      | none => (.error (.readRecord (c.count + 1)), c)
      | some (x, c) => (c.record x, c)

end Container

end ObjectFeed.Avro
