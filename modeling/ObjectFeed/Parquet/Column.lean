import ObjectFeed.Parquet.Encoding
import ObjectFeed.Parquet.Metadata

/-!
# Columns

The values of a column lie in pages. Each comes with two levels: how many of its optional parents
are there, and at which repeated one of them a new element begins. A column that is malformed has
the entries before its first fault. Nothing is decompressed: a column ends before its first
compressed chunk as if that were malformed.

* `Column.read`: the entries of a column.
* `Column.rows`: the entries, row by row.
-/

namespace ObjectFeed.Parquet

/-- A place in a column, with its levels and its value, if there is one. -/
structure Entry where
  repeats : Nat
  defined : Nat
  value : Option Stored
deriving Inhabited

/-- What is known of a column before it is read. -/
structure ColumnType where
  type : Physical
  /-- The level from which on an entry has a value. -/
  maxDefined : Nat
  maxRepeats : Nat
  /-- All values are texts. -/
  isText : Bool

/-- The entries of a column, to its end or to its first fault. -/
structure Column where
  entries : Array Entry
  isBroken : Bool

namespace Column

/-- The number of bits of a level. -/
def levelWidth (max : Nat) : Nat := if max = 0 then 0 else max.log2 + 1

/-- Levels before the values, after the number of their bytes or packed, and what follows them. -/
def levels (isPacked : Bool) (max n : Nat) (b : Bytes) : Option (List Nat × Bytes) :=
  if max = 0 then some (List.replicate n 0, b)
  else if isPacked then
    let size := (n * levelWidth max + 7) / 8
    if b.length < size then none
    else some (Runs.unpack (levelWidth max) n (b.take size), b.drop size)
  else
    let size := Bytes.littleEndian (b.take 4)
    if b.length < 4 + size then none
    else some (Runs.expand (levelWidth max) n ((b.drop 4).take size), b.drop (4 + size))

/-- The values are valid as values of the column. -/
def isValid (t : ColumnType) : Stored → Bool
  | .bytes b => !t.isText || b.text?.isSome
  | _ => true

/-- The entries with the levels, as long as there are values for those that have one. -/
def entriesOf (maxDefined : Nat) : (repeats defined : List Nat) → List Stored → List Entry
  | r :: rs, d :: ds, vs =>
    if d = maxDefined then
      match vs with
      | v :: vs => ⟨r, d, some v⟩ :: entriesOf maxDefined rs ds vs
      | [] => []
    else ⟨r, d, none⟩ :: entriesOf maxDefined rs ds vs
  | _, _, _ => []

/-- What the pages of a chunk have in common. -/
structure Chunk where
  column : ColumnType
  dictionary : Option (Array Stored) := none

/-- The entries of a page, from its levels and the data of its values. -/
def pageEntries (c : Chunk) (encoding : Encoding) (repeats defined : List Nat) (b : Bytes) :
    Option (List Entry) := do
  let n := defined.countP (· == c.column.maxDefined)
  let vs ← encoding.values c.column.type c.dictionary n b
  let vs := if encoding = .dictionary then vs else vs.takeWhile (isValid c.column)
  return entriesOf c.column.maxDefined repeats defined vs

/-- The encoding in a header. -/
def encoding? (h : Compact) (field : Int) : Option Encoding :=
  ((h.field? field).bind Compact.int?).bind Encoding.ofNumber?

/-- A field of a header that is not negative. -/
def nat? (h : Compact) (field : Int) : Option Nat := (h.field? field).bind Compact.nat?

/-- A field of a header says that levels are packed, or in runs. -/
def isPacked? (h : Compact) (field : Int) : Option Bool := do
  match ← (← h.field? field).int? with
  | 3 => some false
  | 4 => some true
  | _ => none

/-- The entries of a page whose levels come after their sizes, and their full number. -/
def firstVersion (c : Chunk) (h : Compact) (b : Bytes) : Option (List Entry × Nat) := do
  let n ← nat? h 1
  let (repeats, b) ← levels (← isPacked? h 4) c.column.maxRepeats n b
  let (defined, b) ← levels (← isPacked? h 3) c.column.maxDefined n b
  return (← pageEntries c (← encoding? h 2) repeats defined b, n)

/-- The entries of a page whose header has the sizes of the levels, and their full number. -/
def secondVersion (c : Chunk) (h : Compact) (b : Bytes) : Option (List Entry × Nat) := do
  let n ← nat? h 1
  let definedSize ← nat? h 5
  let repeatsSize ← nat? h 6
  if b.length < repeatsSize + definedSize then none
  let repeats := Runs.expand (levelWidth c.column.maxRepeats) n (b.take repeatsSize)
  let defined :=
    Runs.expand (levelWidth c.column.maxDefined) n ((b.drop repeatsSize).take definedSize)
  let repeats := if c.column.maxRepeats = 0 then List.replicate n 0 else repeats
  let defined := if c.column.maxDefined = 0 then List.replicate n 0 else defined
  let b := b.drop (repeatsSize + definedSize)
  return (← pageEntries c (← encoding? h 4) repeats defined b, n)

/-- The dictionary in a page. -/
def dictionary? (t : ColumnType) (h : Compact) (b : Bytes) : Option (Array Stored) := do
  let n ← nat? h 1
  let vs := Encoding.plainValues t.type n b
  if vs.all (isValid t) then some vs.toArray else none

/-- A page: its header, its data, and what follows it. -/
def page? (b : Bytes) : Option (Compact × Bytes × Bytes) := do
  let (h, b) ← Compact.read b
  let size ← nat? h 3
  let data := b.take size
  if data.length < size then none else some (h, data, b.drop size)

/-- The entries of a chunk, after those in `acc`; `limit` bounds its pages. A page without entries
ends the chunk. -/
def readChunk : (limit : Nat) → Chunk → Bytes → (acc : Array Entry) → Column
  | 0, _, _, acc => ⟨acc, true⟩
  | _ + 1, _, [], acc => ⟨acc, false⟩
  | limit + 1, c, b, acc =>
    match page? b with
    | none => ⟨acc, true⟩
    | some (h, data, rest) =>
      let found : Option (List Entry × Nat) :=
        match (h.field? 1).bind Compact.int? with
        | some 0 => (h.field? 5).bind fun h => firstVersion c h data
        | some 3 => (h.field? 8).bind fun h => secondVersion c h data
        | _ => none
      match (h.field? 1).bind Compact.int?, found with
      -- an index has no entries
      | some 1, _ => readChunk limit c rest acc
      | some 2, _ =>
        match (h.field? 7).bind fun h => dictionary? c.column h data with
        | some d => readChunk limit { c with dictionary := some d } rest acc
        | none => ⟨acc, true⟩
      | _, some (es, n) =>
        if es.length < n then ⟨acc ++ es, true⟩
        else if n = 0 then ⟨acc, false⟩
        else readChunk limit c rest (acc ++ es)
      | _, none => ⟨acc, true⟩

/-- The entries of a chunk of a file, after those in `acc`. -/
def ofChunk (t : ColumnType) (file : Bytes) (c : ChunkInfo) (acc : Array Entry) : Column :=
  let b := (file.drop c.start).take c.size
  if c.isCompressed then ⟨acc, true⟩
  else
    let column := readChunk (b.length + 1) { column := t } b acc
    { column with isBroken := column.isBroken || b.length < c.size }

/-- The entries of all chunks of a column. -/
def read (t : ColumnType) (file : Bytes) (chunks : List ChunkInfo) : Column :=
  let add (c : Column) (chunk : ChunkInfo) : Column :=
    if c.isBroken then c else ofChunk t file chunk c.entries
  chunks.foldl add ⟨#[], false⟩

/-- Entries up to the next one that begins at the level or further out, element by element. -/
def split (level : Nat) : List Entry → List (List Entry)
  | [] => []
  | e :: es =>
    match split level es with
    | [] => [[e]]
    | g :: gs =>
      match g with
      | [] => [e] :: gs
      | e' :: _ => if e'.repeats ≤ level then [e] :: g :: gs else (e :: g) :: gs

/-- The entries row by row. The last row of a malformed column with repeated parents may be
incomplete and is left out. -/
def rows (t : ColumnType) (c : Column) : List (List Entry) :=
  if t.maxRepeats = 0 then c.entries.toList.map fun e => [e]
  else
    let rows := split 0 c.entries.toList
    if c.isBroken then rows.dropLast else rows

end Column

end ObjectFeed.Parquet
