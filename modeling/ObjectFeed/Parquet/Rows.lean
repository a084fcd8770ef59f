import ObjectFeed.Parquet.Table
import ObjectFeed.Record

/-!
# Rows of columnar files

The rows of a file are delivered one at a time, whatever the batches in which they are read.

* `Rows.next`: the next row.
* `Rows.close`: no row is left.
-/

namespace ObjectFeed.Parquet

/-- The rows of a file that are left. -/
structure Rows where
  /-- The text of the schema. -/
  description : String
  /-- The batches that were not read yet. -/
  batches : List Batch
  /-- The rows of the batch that was read. -/
  ready : List Json := []

namespace Rows

/-- The rows of a file. -/
def ofFile (file : Bytes) : Except DecodeError Rows := do
  let t ← Table.ofFile file
  return { description := t.description, batches := t.batches }

/-- The first row of the batches, and the rows and the batches after it. -/
def firstRow : List Batch → Except DecodeError (Option Json) × List Json × List Batch
  | [] => (.ok none, [], [])
  | .error e :: bs => (.error e, [], bs)
  | .ok [] :: bs => firstRow bs
  | .ok (v :: vs) :: bs => (.ok (some v), vs, bs)

/-- The record of a row. -/
def record (r : Rows) (v : Json) : Record :=
  { schema := r.description, payload := .structured v }

/-- The next row, or nothing at the end. -/
def next (r : Rows) : Except DecodeError (Option Record) × Rows :=
  let (v, ready, batches) := firstRow (.ok r.ready :: r.batches)
  (v.map (Option.map r.record), { r with ready, batches })

/-- No row is left. -/
def close (r : Rows) : Rows := { r with ready := [], batches := [] }

end Rows

end ObjectFeed.Parquet
