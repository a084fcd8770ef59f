import ObjectFeed.Parquet.Compact
import ObjectFeed.Parquet.Node

/-!
# Footers of columnar files

A file ends with a description of its schema, of its groups of rows and of where the columns of
each group are, and with the length of that description. Of the meanings in the newer notation those
up to numbers of half precision are known; a file with a later one has no description.

* `Metadata.ofFile?`: the description in a file.
-/

namespace ObjectFeed.Parquet

/-- Where a file has the values that a group of rows has in one column. -/
structure ChunkInfo where
  start : Nat
  size : Nat
  isCompressed : Bool

/-- A group of rows. -/
structure RowGroup where
  rows : Nat
  chunks : List ChunkInfo

/-- The description of a file. -/
structure Metadata where
  /-- The name of the root of the schema. -/
  name : String
  /-- The nodes below the root. -/
  nodes : List Node
  rowGroups : List RowGroup
  /-- Free-form texts. -/
  properties : List (String × String)

namespace Metadata

/-- How values are stored. -/
def physical? (c : Compact) : Option Physical := do
  match ← (← c.field? 1).int? with
  | 0 => some .boolean
  | 1 => some .int32
  | 2 => some .int64
  | 3 => some .int96
  | 4 => some .float
  | 5 => some .double
  | 6 => some .bytes
  | 7 => return .fixed (← (← c.field? 2).nat?)
  | _ => none

/-- How often a node occurs. -/
def repetition? (c : Compact) : Option Repetition := do
  match ← (← c.field? 3).int? with
  | 0 => some .required
  | 1 => some .optional
  | 2 => some .repeated
  | _ => none

/-- A meaning in the older notation. -/
def converted? : Int → Option Converted
  | 0 => some .utf8
  | 1 => some .map
  | 2 => some .mapKeyValue
  | 3 => some .list
  | 4 => some .enum
  | 5 => some .decimal
  | 6 => some .date
  | 7 => some .timeMillis
  | 8 => some .timeMicros
  | 9 => some .timestampMillis
  | 10 => some .timestampMicros
  | 11 => some (.integer 8 false)
  | 12 => some (.integer 16 false)
  | 13 => some (.integer 32 false)
  | 14 => some (.integer 64 false)
  | 15 => some (.integer 8 true)
  | 16 => some (.integer 16 true)
  | 17 => some (.integer 32 true)
  | 18 => some (.integer 64 true)
  | 19 => some .json
  | 20 => some .bson
  | 21 => some .interval
  | _ => none

/-- A unit of time. -/
def unit? : Compact → Option TimeUnit
  | .record [(1, _)] => some .millis
  | .record [(2, _)] => some .micros
  | .record [(3, _)] => some .nanos
  | _ => none

/-- The adjustment and the unit of a time. -/
def timeParts? (c : Compact) : Option (Bool × TimeUnit) :=
  return (← (← c.field? 1).bool?, ← unit? (← c.field? 2))

/-- A meaning in the newer notation. -/
def logical? : Compact → Option Logical
  | .record [(1, _)] => some .string
  | .record [(2, _)] => some .map
  | .record [(3, _)] => some .list
  | .record [(4, _)] => some .enum
  | .record [(5, c)] => return .decimal (← (← c.field? 2).int?) (← (← c.field? 1).int?)
  | .record [(6, _)] => some .date
  | .record [(7, c)] => (timeParts? c).map fun p => .time p.1 p.2
  | .record [(8, c)] => (timeParts? c).map fun p => .timestamp p.1 p.2
  | .record [(10, c)] => return .integer (← (← c.field? 1).int?) (← (← c.field? 2).bool?)
  | .record [(11, _)] => some .unknown
  | .record [(12, _)] => some .json
  | .record [(13, _)] => some .bson
  | .record [(14, _)] => some .uuid
  | .record [(15, _)] => some .float16
  | _ => none

/-- An optional part, which must have a meaning if it is there. -/
def part {α : Type} (c : Compact) (n : Int) (f : Compact → Option α) : Option (Option α) :=
  match c.field? n with
  | none => some none
  | some x => (f x).map some

/-- What a schema says of a node. -/
def nodeInfo? (c : Compact) (repetition : Repetition) : Option NodeInfo := do
  return {
    name := ← (← c.field? 4).text?
    repetition
    id := ← part c 9 Compact.int?
    logical := ← part c 10 logical?
    converted := ← part c 6 fun x => x.int?.bind converted? }

/-- An integer that is zero unless it is there. -/
def intOr0 (c : Compact) (n : Int) : Int := ((c.field? n).bind Compact.int?).getD 0

/-- The next `n` nodes of a schema that is listed in preorder, and what follows them; `limit`
bounds the nodes. -/
def nodes? : (limit n : Nat) → List Compact → Option (List Node × List Compact)
  | _, 0, cs => some ([], cs)
  | 0, _ + 1, _ => none
  | _ + 1, _ + 1, [] => none
  | limit + 1, n + 1, c :: cs => do
    let info ← nodeInfo? c (← repetition? c)
    let (node, cs) ←
      match (← part c 5 Compact.nat?).getD 0 with
      | 0 => some (Node.leaf info (← physical? c) (intOr0 c 8) (intOr0 c 7), cs)
      | k + 1 => do
        let (children, cs) ← nodes? limit (k + 1) cs
        some (Node.group info children, cs)
    let (ns, cs) ← nodes? limit n cs
    return (node :: ns, cs)

mutual

/-- The number of columns in a node. -/
def columns : Node → Nat
  | .leaf .. => 1
  | .group _ cs => columnsOf cs

/-- The number of columns in nodes. -/
def columnsOf : List Node → Nat
  | [] => 0
  | n :: ns => columns n + columnsOf ns

end

/-- A chunk of a column: it starts with the dictionary if there is one. -/
def chunk? (c : Compact) : Option ChunkInfo := do
  let m ← c.field? 3
  let data ← (← m.field? 9).nat?
  let start := (← part m 11 Compact.nat?).getD data
  return { start, size := ← (← m.field? 7).nat?, isCompressed := (← (← m.field? 4).int?) ≠ 0 }

/-- A group of rows, which has a chunk of every column. -/
def rowGroup? (columns : Nat) (c : Compact) : Option RowGroup := do
  let chunks ← (← (← c.field? 1).list?).mapM chunk?
  if chunks.length ≠ columns then none
  else return { rows := ← (← c.field? 3).nat?, chunks }

/-- A free-form text. -/
def property? (c : Compact) : Option (String × String) := do
  return (← (← c.field? 1).text?, (← part c 2 Compact.text?).getD "")

/-- The description that a record spells. -/
def ofCompact? (c : Compact) : Option Metadata := do
  let _ ← (← c.field? 1).int?
  let root :: elements ← (← c.field? 2).list? | none
  let children := (← part root 5 Compact.nat?).getD 0
  let (nodes, rest) ← nodes? elements.length children elements
  if !rest.isEmpty then none
  let rowGroups ← (← (← c.field? 4).list?).mapM (rowGroup? (columnsOf nodes))
  let properties ← ((← part c 5 Compact.list?).getD []).mapM property?
  return { name := ← (← root.field? 4).text?, nodes, rowGroups, properties }

/-- The last bytes of every file. -/
def magic : Bytes := [0x50, 0x41, 0x52, 0x31]

/-- The number of bytes of the length of the description and of those after it. -/
def tailSize : Nat := 8

/-- The description in a file. -/
def ofFile? (file : Bytes) : Option Metadata :=
  let tail := file.drop (file.length - tailSize)
  let size := Bytes.littleEndian (tail.take 4)
  if file.length < tailSize ∨ tail.drop 4 ≠ magic ∨ file.length < tailSize + size then none
  else do
    let (c, _) ← Compact.read (file.drop (file.length - tailSize - size))
    ofCompact? c

end Metadata

end ObjectFeed.Parquet
