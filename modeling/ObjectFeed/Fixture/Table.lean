import ObjectFeed.Fixture.Reading
import ObjectFeed.Parquet.Metadata

/-!
# Sample columnar files

Sample readings in a columnar file with one group of rows, whose columns have one page each.

* `Fixture.table`: the file of some readings.
-/

namespace ObjectFeed.Fixture

open Parquet

/-- A field of a compact record: its number, its type and its value. -/
structure CompactField where
  number : Nat
  type : Nat
  value : Bytes

namespace CompactField

/-- An integer. -/
def int (n : Int) : Bytes := Varint.write (Varint.ofInt n)

/-- An integer of 32 bits. -/
def short (number : Nat) (n : Int) : CompactField := ⟨number, 5, int n⟩

/-- An integer of 64 bits. -/
def long (number : Nat) (n : Int) : CompactField := ⟨number, 6, int n⟩

/-- Bytes after their number. -/
def counted (b : Bytes) : Bytes := Varint.write b.length ++ b

/-- A text. -/
def text (number : Nat) (s : String) : CompactField := ⟨number, 8, counted (Bytes.ofText s)⟩

/-- A list of less than fifteen elements of a type. -/
def list (number type : Nat) (elements : List Bytes) : CompactField :=
  ⟨number, 9, UInt8.ofNat (elements.length * 16 + type) :: elements.flatten⟩

/-- The fields after the one with a number, and the end of the record. -/
def fieldsAfter : (last : Nat) → List CompactField → Bytes
  | _, [] => [0]
  | last, f :: fs =>
    UInt8.ofNat ((f.number - last) * 16 + f.type) :: f.value ++ fieldsAfter f.number fs

/-- A record with fields in the order of their numbers. -/
def record (fs : List CompactField) : Bytes := fieldsAfter 0 fs

/-- A record in a record. -/
def part (number : Nat) (fs : List CompactField) : CompactField := ⟨number, 12, record fs⟩

end CompactField

open CompactField

/-- A column of a sample: the number of its type, and its data. -/
structure SampleColumn where
  name : String
  type : Nat
  isText : Bool
  data : Bytes

/-- The columns of readings. -/
def columns (rows : List Reading) : List SampleColumn :=
  [{ name := "id", type := 2, isText := false
     data := rows.flatMap fun r => Bytes.ofLittleEndian 8 r.id },
   { name := "sensor", type := 6, isText := true
     data := rows.flatMap fun r =>
       let b := Bytes.ofText r.sensor
       Bytes.ofLittleEndian 4 b.length ++ b },
   { name := "value", type := 5, isText := false
     data := rows.flatMap fun r => Bytes.ofLittleEndian 8 r.value.bits.toNat }]

/-- The page of a column. -/
def page (n : Nat) (c : SampleColumn) : Bytes :=
  record [short 1 0, short 2 c.data.length, short 3 c.data.length,
    part 5 [short 1 n, short 2 0, short 3 3, short 4 3]] ++ c.data

/-- A column in a schema. -/
def schemaElement (c : SampleColumn) : Bytes :=
  record ([short 1 c.type, short 3 0, text 4 c.name] ++
    if c.isText then [short 6 0, part 10 [part 1 []]] else [])

/-- Where the page of a column is. -/
def chunk (n start : Nat) (c : SampleColumn) : Bytes :=
  let size := (page n c).length
  let path := counted (Bytes.ofText c.name)
  record [long 2 0, part 3 [short 1 c.type, list 2 5 [int 0], list 3 8 [path], short 4 0, long 5 n,
    long 6 size, long 7 size, long 9 start]]

/-- Where the pages of columns are, one after the other. -/
def chunks (n : Nat) : (start : Nat) → List SampleColumn → List Bytes
  | _, [] => []
  | start, c :: cs => chunk n start c :: chunks n (start + (page n c).length) cs

/-- The group of all rows; without rows there is none. -/
def rowGroups (n : Nat) (cs : List SampleColumn) : List Bytes :=
  if n = 0 then []
  else
    [record [list 1 12 (chunks n Metadata.magic.length cs),
      long 2 (cs.flatMap (·.data)).length, long 3 n]]

/-- The file of readings. -/
def table (rows : List Reading) : Bytes :=
  let cs := columns rows
  let n := rows.length
  let root := record [text 4 "arrow_schema", short 5 cs.length]
  let footer := record [short 1 1, list 2 12 (root :: cs.map schemaElement), long 3 n,
    list 4 12 (rowGroups n cs)]
  let pages := if n = 0 then [] else cs.flatMap (page n)
  Metadata.magic ++ pages ++ footer ++ Bytes.ofLittleEndian 4 footer.length ++ Metadata.magic

end ObjectFeed.Fixture
