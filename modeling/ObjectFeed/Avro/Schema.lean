import ObjectFeed.Avro.Name
import ObjectFeed.Json

/-!
# Avro schemas

The types of Avro data. Logical types that change nothing but the meaning of an integer are kept
apart, since a union may have each of them once.

* `Schema`: the types; `Schema.kind` tells the unnamed ones apart.
* `Schema.json`: the JSON form, without documentation and aliases.
* `Schema.definitions`: the named types of a schema, if every name is defined once and before it
  is used.
-/

namespace ObjectFeed.Avro

/-- Logical types whose data are integers. -/
inductive IntegerKind where
  | date
  | timeMillis
  | timeMicros
  | timestampMillis
  | timestampMicros
  | timestampNanos
  | localTimestampMillis
  | localTimestampMicros
  | localTimestampNanos
deriving DecidableEq, Repr

namespace IntegerKind

/-- The name of a logical type. -/
def name : IntegerKind → String
  | .date => "date"
  | .timeMillis => "time-millis"
  | .timeMicros => "time-micros"
  | .timestampMillis => "timestamp-millis"
  | .timestampMicros => "timestamp-micros"
  | .timestampNanos => "timestamp-nanos"
  | .localTimestampMillis => "local-timestamp-millis"
  | .localTimestampMicros => "local-timestamp-micros"
  | .localTimestampNanos => "local-timestamp-nanos"

/-- The data have 32 bits, not 64. -/
def isShort : IntegerKind → Bool
  | .date | .timeMillis => true
  | _ => false

/-- The logical type with a name. -/
def ofName? (s : String) : Option IntegerKind :=
  [date, timeMillis, timeMicros, timestampMillis, timestampMicros, timestampNanos,
    localTimestampMillis, localTimestampMicros, localTimestampNanos].find? (·.name == s)

end IntegerKind

/-- What a record says of a field besides its type. -/
structure FieldInfo where
  name : String
  aliases : List String
  default : Option Json
  attributes : List (String × Json)

/-- An Avro schema. Attributes are members without a meaning of their own. -/
inductive Schema where
  | null
  | boolean
  | int
  | long
  | float
  | double
  | bytes
  | string
  | array (items : Schema) (attributes : List (String × Json))
  | map (values : Schema) (attributes : List (String × Json))
  | union (branches : List Schema)
  | record (name : Name) (fields : List (FieldInfo × Schema)) (attributes : List (String × Json))
  | enum (name : Name) (symbols : List String) (default : Option String)
      (attributes : List (String × Json))
  | fixed (name : Name) (size : Nat) (attributes : List (String × Json))
  | integer (kind : IntegerKind)
  | decimal (precision scale : Nat) (inner : Schema)
  | bigDecimal
  | uuid
  | duration
  | ref (name : Name)
deriving Inhabited

namespace Schema

/-- The kind of an unnamed type. -/
def kind : Schema → Option String
  | .null => some "null"
  | .boolean => some "boolean"
  | .int => some "int"
  | .long => some "long"
  | .float => some "float"
  | .double => some "double"
  | .bytes => some "bytes"
  | .string => some "string"
  | .array .. => some "array"
  | .map .. => some "map"
  | .union .. => some "union"
  | .record .. | .enum .. | .fixed .. | .ref _ => none
  | .integer k => some k.name
  | .decimal .. => some "decimal"
  | .bigDecimal => some "big-decimal"
  | .uuid => some "uuid"
  | .duration => some "duration"

/-- The members of the JSON form of a name. -/
def nameMembers (n : Name) : List (String × Json) :=
  ("name", Json.string n.base) ::
    match n.space with
    | none => []
    | some s => [("namespace", .string s)]

/-- The members of the JSON form of a fixed type. -/
def fixedMembers (n : Name) (size : Nat) (attributes : List (String × Json)) :
    List (String × Json) :=
  ("type", Json.string "fixed") :: nameMembers n ++ ("size", Json.ofNat size) :: attributes

/-- The JSON form of a logical type. -/
def logicalJson (type logicalType : String) : Json :=
  .ofMembers [("type", .string type), ("logicalType", .string logicalType)]

mutual

/-- The JSON form. -/
def json : Schema → Json
  | .null => .string "null"
  | .boolean => .string "boolean"
  | .int => .string "int"
  | .long => .string "long"
  | .float => .string "float"
  | .double => .string "double"
  | .bytes => .string "bytes"
  | .string => .string "string"
  | .array items attributes =>
    .ofMembers ([("type", .string "array"), ("items", items.json)] ++ attributes)
  | .map values attributes =>
    .ofMembers ([("type", .string "map"), ("values", values.json)] ++ attributes)
  | .union branches => .array (branchesJson branches)
  | .record n fields attributes =>
    .ofMembers (("type", Json.string "record") :: nameMembers n ++
      ("fields", Json.array (fieldsJson fields)) :: attributes)
  | .enum n symbols _ attributes =>
    .ofMembers (("type", Json.string "enum") :: nameMembers n ++
      ("symbols", Json.array (symbols.map .string)) :: attributes)
  | .fixed n size attributes => .ofMembers (fixedMembers n size attributes)
  | .integer k => logicalJson (if k.isShort then "int" else "long") k.name
  | .decimal precision scale inner =>
    let base := match inner with
      | .fixed n size attributes => fixedMembers n size attributes
      | _ => [("type", .string "bytes")]
    .ofMembers (base ++
      [("logicalType", .string "decimal"), ("scale", .ofNat scale),
        ("precision", .ofNat precision)])
  | .bigDecimal => logicalJson "bytes" "big-decimal"
  | .uuid => logicalJson "string" "uuid"
  | .duration =>
    .ofMembers [("type", .ofMembers (fixedMembers { base := "duration" } 12 [])),
      ("logicalType", .string "duration")]
  | .ref n => .string n.text

/-- The JSON forms of the branches of a union. -/
def branchesJson : List Schema → List Json
  | [] => []
  | s :: ss => s.json :: branchesJson ss

/-- The JSON forms of the fields of a record. -/
def fieldsJson : List (FieldInfo × Schema) → List Json
  | [] => []
  | (i, s) :: fs =>
    .ofMembers ([("name", .string i.name), ("type", s.json)] ++ i.attributes) :: fieldsJson fs

end

/-- Named types. -/
abbrev Definitions := List (Name × Schema)

/-- Adds a named type, unless its name is defined already. -/
def define (n : Name) (s : Schema) (ds : Definitions) : Option Definitions :=
  if (ds.lookup n).isSome then none else some ((n, s) :: ds)

mutual

/-- The definitions with those of a schema, in the scope of a namespace. -/
def addDefinitions (space : Option String) (ds : Definitions) : Schema → Option Definitions
  | .array items _ => items.addDefinitions space ds
  | .map values _ => values.addDefinitions space ds
  | .union branches => addBranches space ds branches
  | .record n fields attributes => do
    let n := n.qualify space
    let ds ← define n (.record n fields attributes) ds
    addFields n.space ds fields
  | .enum n symbols default attributes =>
    define (n.qualify space) (.enum n symbols default attributes) ds
  | .fixed n size attributes => define (n.qualify space) (.fixed n size attributes) ds
  | .ref n => if (ds.lookup (n.qualify space)).isSome then some ds else none
  | _ => some ds

/-- The definitions with those of the branches of a union. -/
def addBranches (space : Option String) (ds : Definitions) : List Schema → Option Definitions
  | [] => some ds
  | s :: ss => (s.addDefinitions space ds).bind fun ds => addBranches space ds ss

/-- The definitions with those of the fields of a record. -/
def addFields (space : Option String) (ds : Definitions) :
    List (FieldInfo × Schema) → Option Definitions
  | [] => some ds
  | (_, s) :: fs => (s.addDefinitions space ds).bind fun ds => addFields space ds fs

end

/-- The named types of a schema, unless a name is defined twice or used before. -/
def definitions (s : Schema) : Option Definitions := s.addDefinitions none []

mutual

/-- The number of types in a schema. -/
def size : Schema → Nat
  | .array items _ => items.size + 1
  | .map values _ => values.size + 1
  | .union branches => branchesSize branches + 1
  | .record _ fields _ => fieldsSize fields + 1
  | .decimal _ _ inner => inner.size + 1
  | _ => 1

/-- The number of types in the branches of a union. -/
def branchesSize : List Schema → Nat
  | [] => 0
  | s :: ss => s.size + branchesSize ss

/-- The number of types in the fields of a record. -/
def fieldsSize : List (FieldInfo × Schema) → Nat
  | [] => 0
  | (_, s) :: fs => s.size + fieldsSize fs

end

end Schema

end ObjectFeed.Avro
