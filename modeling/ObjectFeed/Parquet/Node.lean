import ObjectFeed.Decimal.Shortest

/-!
# Schemas of columnar files

A schema is a tree: its leaves are columns, and its inner nodes are groups of them. A node has a
meaning besides the way in which its values are stored, in one of two notations.

* `Node`: the trees.
* `Node.text`: the text of a schema.
-/

namespace ObjectFeed.Parquet

/-- How often a node occurs in its parent. -/
inductive Repetition where
  | required
  | optional
  | repeated
deriving DecidableEq, Repr

/-- How values are stored. -/
inductive Physical where
  | boolean
  | int32
  | int64
  | int96
  | float
  | double
  | bytes
  | fixed (size : Nat)
deriving DecidableEq, Repr

/-- Units of time. -/
inductive TimeUnit where
  | seconds
  | millis
  | micros
  | nanos
deriving DecidableEq, Repr

/-- What values mean. -/
inductive Logical where
  | string
  | map
  | list
  | enum
  | decimal (precision scale : Int)
  | date
  | time (utc : Bool) (unit : TimeUnit)
  | timestamp (utc : Bool) (unit : TimeUnit)
  | integer (bits : Int) (signed : Bool)
  | unknown
  | json
  | bson
  | uuid
  | float16
deriving DecidableEq, Repr

/-- What values mean, in the older notation. -/
inductive Converted where
  | utf8
  | map
  | mapKeyValue
  | list
  | enum
  | decimal
  | date
  | timeMillis
  | timeMicros
  | timestampMillis
  | timestampMicros
  | integer (bits : Nat) (signed : Bool)
  | json
  | bson
  | interval
deriving DecidableEq, Repr

/-- What a schema says of any node. -/
structure NodeInfo where
  name : String
  repetition : Repetition
  id : Option Int
  logical : Option Logical
  converted : Option Converted
deriving Repr

/-- A node below the root. -/
inductive Node where
  | leaf (info : NodeInfo) (type : Physical) (precision scale : Int)
  | group (info : NodeInfo) (children : List Node)

namespace Repetition

/-- The name of a repetition. -/
def name : Repetition → String
  | .required => "REQUIRED"
  | .optional => "OPTIONAL"
  | .repeated => "REPEATED"

end Repetition

namespace Physical

/-- The name of a way to store values. -/
def name : Physical → String
  | .boolean => "BOOLEAN"
  | .int32 => "INT32"
  | .int64 => "INT64"
  | .int96 => "INT96"
  | .float => "FLOAT"
  | .double => "DOUBLE"
  | .bytes => "BYTE_ARRAY"
  | .fixed size => "FIXED_LEN_BYTE_ARRAY (" ++ toString size ++ ")"

end Physical

/-- The text of an integer. -/
def intText (n : Int) : String :=
  (if n < 0 then "-" else "") ++ String.ofList (Decimal.digitsOf n.natAbs)

namespace TimeUnit

/-- The name of a unit. -/
def name : TimeUnit → String
  | .seconds => "SECONDS"
  | .millis => "MILLIS"
  | .micros => "MICROS"
  | .nanos => "NANOS"

/-- The parts of a second. -/
def perSecond : TimeUnit → Nat
  | .seconds => 1
  | .millis => 1000
  | .micros => 1000000
  | .nanos => 1000000000

end TimeUnit

namespace Logical

/-- The text of a truth value. -/
def flagText (b : Bool) : String := if b then "true" else "false"

/-- The text of a meaning. -/
def text : Logical → String
  | .string => "STRING"
  | .map => "MAP"
  | .list => "LIST"
  | .enum => "ENUM"
  | .decimal precision scale => "DECIMAL(" ++ intText precision ++ "," ++ intText scale ++ ")"
  | .date => "DATE"
  | .time utc unit => "TIME(" ++ unit.name ++ "," ++ flagText utc ++ ")"
  | .timestamp utc unit => "TIMESTAMP(" ++ unit.name ++ "," ++ flagText utc ++ ")"
  | .integer bits signed => "INTEGER(" ++ intText bits ++ "," ++ flagText signed ++ ")"
  | .unknown => "UNKNOWN"
  | .json => "JSON"
  | .bson => "BSON"
  | .uuid => "UUID"
  | .float16 => "FLOAT16"

end Logical

namespace Converted

/-- The text of a meaning in the older notation, with the precision and the scale of a decimal as
far as they are positive. -/
def text (precision scale : Int) : Converted → String
  | .utf8 => "UTF8"
  | .map => "MAP"
  | .mapKeyValue => "MAP_KEY_VALUE"
  | .list => "LIST"
  | .enum => "ENUM"
  | .decimal =>
    "DECIMAL" ++
      if 0 < precision ∧ 0 < scale then "(" ++ intText precision ++ ", " ++ intText scale ++ ")"
      else if 0 < precision ∧ scale = 0 then "(" ++ intText precision ++ ")"
      else ""
  | .date => "DATE"
  | .timeMillis => "TIME_MILLIS"
  | .timeMicros => "TIME_MICROS"
  | .timestampMillis => "TIMESTAMP_MILLIS"
  | .timestampMicros => "TIMESTAMP_MICROS"
  | .integer bits signed => (if signed then "INT_" else "UINT_") ++ toString bits
  | .json => "JSON"
  | .bson => "BSON"
  | .interval => "INTERVAL"

end Converted

namespace Node

/-- What the schema says of a node. -/
def info : Node → NodeInfo
  | .leaf info .. => info
  | .group info _ => info

/-- The name of a node. -/
def name (n : Node) : String := n.info.name

/-- The nodes in a group. -/
def children : Node → List Node
  | .leaf .. => []
  | .group _ cs => cs

/-- The text of the meaning of a node; the newer notation counts. -/
def meaning (i : NodeInfo) (precision scale : Int) : String :=
  match i.logical, i.converted with
  | some l, _ => l.text
  | none, some c => c.text precision scale
  | none, none => ""

/-- The number of a node. -/
def idText (i : NodeInfo) : String :=
  match i.id with
  | some n => "[" ++ intText n ++ "] "
  | none => ""

/-- As many blanks. -/
def indent (n : Nat) : String := String.ofList (List.replicate n ' ')

mutual

/-- The text of a node. -/
def textAt (column : Nat) : Node → String
  | .leaf i type precision scale =>
    let m := meaning i precision scale
    indent column ++ i.repetition.name ++ " " ++ type.name ++ " " ++ idText i ++ i.name ++
      (if m = "" then ";" else " (" ++ m ++ ");")
  | .group i cs =>
    let m := meaning i 0 0
    indent column ++ i.repetition.name ++ " group " ++ idText i ++ i.name ++ " " ++
      (if m = "" then "" else "(" ++ m ++ ") ") ++ "\x7b\n" ++ linesAt (column + 2) cs ++
      indent column ++ "\x7d"

/-- The texts of nodes, each with the end of its line. -/
def linesAt (column : Nat) : List Node → String
  | [] => ""
  | n :: ns => textAt column n ++ "\n" ++ linesAt column ns

end

/-- The text of the schema with a name and the nodes below its root. -/
def text (name : String) (nodes : List Node) : String :=
  "message " ++ name ++ " \x7b\n" ++ linesAt 2 nodes ++ "\x7d"

end Node

end ObjectFeed.Parquet
