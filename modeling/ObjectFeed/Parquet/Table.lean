import ObjectFeed.Error
import ObjectFeed.Parquet.Field

/-!
# Columnar files

A columnar file is a table. Its rows are read in batches of a fixed size, each of which needs all
columns; a batch that cannot be read or has no JSON form delivers none of its rows.

* `Table.ofFile`: the table in a file.
* `Table.batches`: the batches of its rows, up to the first failure.
-/

namespace ObjectFeed.Parquet

/-- The rows of a column, to its end or to its first fault. -/
structure ColumnRows where
  rows : Array (List Entry)
  isBroken : Bool

/-- A batch of rows. -/
abbrev Batch := Except DecodeError (List Json)

/-- The contents of a columnar file. -/
structure Table where
  /-- The text of the schema. -/
  description : String
  fields : List (String × Field)
  columns : List ColumnRows
  /-- The number of rows by the description of the file. -/
  size : Nat

namespace Table

/-- The name of the text with the hints. -/
def hintName : String := "ARROW:schema"

/-- The hints in a file, which must be well-formed if there are any. -/
def hints? (m : Metadata) : Option (Option (List (String × Hint))) :=
  match m.properties.lookup hintName with
  | none => some none
  | some s => (Hint.ofText? s).map some

/-- The largest size of decimals of some digits. -/
def decimalSize (precision : Nat) : Nat := if precision ≤ 38 then 16 else 32

mutual

/-- All columns of the field have readers. -/
def isReadable : Field → Bool
  | .leaf column kind =>
    match column.type, kind with
    | .fixed size, .decimal precision _ => size ≤ decimalSize precision
    | _, _ => true
  | .record _ _ members => areReadable members
  | .list _ _ _ item => isReadable item
  | .map _ _ _ key value => isReadable key && isReadable value

/-- All columns of the members have readers. -/
def areReadable : List (String × Field) → Bool
  | [] => true
  | (_, f) :: fs => isReadable f && areReadable fs

end

/-- The rows of a column. -/
def columnRows (file : Bytes) (groups : List RowGroup) (place : Nat) (t : ColumnType) :
    ColumnRows :=
  let c := Column.read t file (groups.filterMap fun g => g.chunks[place]?)
  { rows := (c.rows t).toArray, isBroken := c.isBroken }

/-- The table in a file. -/
def ofFile (file : Bytes) : Except DecodeError Table :=
  let found : Option (Metadata × List (String × Field)) := do
    let m ← Metadata.ofFile? file
    return (m, ← Field.ofNodes? m.nodes (← hints? m))
  match found with
  | none => .error .openColumns
  | some (m, fields) =>
    if !areReadable fields then .error .buildColumns
    else
      .ok {
        description := Node.text m.name m.nodes
        fields
        columns := (Field.columnsOf fields).zipIdx.map fun (t, i) => columnRows file m.rowGroups i t
        size := (m.rowGroups.map RowGroup.rows).foldl (· + ·) 0 }

/-- The number of rows of a batch. -/
def batchSize : Nat := 1024

/-- The entries of a row. -/
def row (heads : List (Array (List Entry))) (i : Nat) : Field.Entries :=
  heads.map fun h => h.getD i []

/-- The rows of a batch that was read. -/
def convert (t : Table) (heads : List (Array (List Entry))) (n : Nat) : Batch :=
  let rows := (List.range n).mapM fun i => Field.assembleMembers t.fields (row heads i)
  match rows with
  | some rows =>
    if Field.haveForms t.fields then .ok (rows.map .ofMembers) else .error .convertBatch
  | none => .error .convertBatch

/-- The batch that begins at a row, or nothing at the end. -/
def batch? (t : Table) (start : Nat) : Option Batch :=
  let heads := t.columns.map fun c => c.rows.extract start (start + batchSize)
  let isCut := t.columns.any fun c => c.isBroken && c.rows.size < start + batchSize
  -- without columns the description of the file alone has the number of rows
  let n := match heads with
    | [] => min batchSize (t.size - start)
    | h :: _ => h.size
  if isCut ∨ heads.any (·.size ≠ n) then some (.error .readBatch)
  else if n = 0 then none
  else some (t.convert heads n)

/-- The batches from a row on, up to the first failure; `limit` bounds their number. -/
def batchesFrom (t : Table) : (limit start : Nat) → List Batch
  | 0, _ => []
  | limit + 1, start =>
    match t.batch? start with
    | none => []
    | some (.error e) => [.error e]
    | some (.ok rows) => .ok rows :: batchesFrom t limit (start + rows.length)

/-- More batches than there are. -/
def maxBatches (t : Table) : Nat :=
  (t.columns.map fun c => c.rows.size).foldl max t.size / batchSize + 2

/-- The batches of rows, up to the first failure. -/
def batches (t : Table) : List Batch := t.batchesFrom t.maxBatches 0

end Table

end ObjectFeed.Parquet
