import ObjectFeed.Avro.Schema.Default

/-!
# Reading Avro schemas

A schema is a JSON value: a text names a type, a list is a union, and an object has a type and
its parts. Logical types that do not fit their type are ignored.

* `Schema.ofJson?`: the schema that a JSON value spells.
-/

namespace ObjectFeed.Avro.Schema

/-- The named types that were read, and the names of those being read. -/
structure Scope where
  parsed : Definitions := []
  resolving : List (Name × Name) := []

/-- Readers of schemas. -/
abbrev Reader := StateT Scope Option

/-- An object describes a field if it is one of the fields of a record. -/
inductive Place where
  | type
  | field
deriving DecidableEq

/-- Members of an object. -/
abbrev Object := List (String × Json)

/-- The text in a member. -/
def textMember (ms : Object) (k : String) : Option String :=
  (Members.get? k ms).bind Json.text?

/-- The members without a meaning for the type. -/
def attributesBut (known : List String) (ms : Object) : List (String × Json) :=
  ms.filter fun m => !known.contains m.1

/-- The members that have a meaning for every type. -/
def commonMembers : List String := ["type", "name", "namespace", "doc", "aliases", "logicalType"]

/-- The name of the type that an object defines. -/
def nameOf (ms : Object) (enclosing : Option String) : Option Name := do
  let n ← Name.ofText? (← textMember ms "name")
  let typeName := match Members.get? "type" ms with
    | some (.object inner) => textMember inner "name"
    | _ => none
  let space := (n.space <|> textMember ms "namespace" <|> enclosing).filter (· ≠ "")
  guard ((space.map isSpace).getD true)
  return { base := typeName.getD n.base, space }

/-- The texts of a list of texts. -/
def textsOf (v : Json) : Option (List String) :=
  match v with
  | .array xs => xs.mapM Json.text?
  | _ => none

/-- The aliases of a type. -/
def aliasesOf (ms : Object) (n : Name) : Option (List Name) :=
  match (Members.get? "aliases" ms).bind textsOf with
  | none => some []
  | some ts => ts.mapM fun t => (Name.ofText? t).map (·.qualify n.space)

/-- Notes that a type is being read. -/
def beginType (n : Name) (aliases : List Name) : Reader Unit :=
  modify fun s => { s with resolving := (n :: aliases).map (·, n) ++ s.resolving }

/-- Notes a type that was read. -/
def endType (n : Name) (aliases : List Name) (t : Schema) : Reader Unit :=
  modify fun s =>
    { parsed := (n :: aliases).map (·, t) ++ s.parsed
      resolving := s.resolving.filter fun r => !(n :: aliases).contains r.1 }

/-- The type that a name refers to. -/
def reference (text : String) (enclosing : Option String) : Reader Schema := do
  let n ← (Name.ofText? text : Option Name)
  let n := n.qualify enclosing
  let s ← get
  if (s.parsed.lookup n).isSome then pure (.ref n)
  else
    match s.resolving.lookup n with
    | some target => pure (.ref target)
    | none => failure

/-- The type that a text names. -/
def named (text : String) (enclosing : Option String) : Reader Schema :=
  match text with
  | "null" => pure .null
  | "boolean" => pure .boolean
  | "int" => pure .int
  | "long" => pure .long
  | "float" => pure .float
  | "double" => pure .double
  | "bytes" => pure .bytes
  | "string" => pure .string
  | _ => reference text enclosing

/-- The branches make a union: none is a union, and of the unnamed ones each occurs once. -/
def isUnion (branches : List Schema) : Bool :=
  let kinds := branches.filterMap kind
  !kinds.contains "union" && kinds.eraseDups.length == kinds.length

/-- How deep a default is followed. -/
def defaultDepth : Nat := 300

/-- The aliases of a field. -/
def fieldAliases (ms : Object) : List String :=
  match Members.get? "aliases" ms with
  | some (.array xs) => xs.filterMap Json.text?
  | _ => []

/-- A field of a record. -/
def readField (read : Place → Json → Option String → Reader Schema) (space : Option String)
    (ms : Object) : Reader (FieldInfo × Schema) := do
  let name ← (textMember ms "name" : Option String)
  guard (isIdentifier name.toList)
  let type ← read .field (.object ms) space
  let default := Members.get? "default" ms
  let ds := (← get).parsed
  guard ((default.map (admits ds defaultDepth type.ownSpace type)).getD true)
  let known := ["type", "name", "doc", "default", "order", "position", "aliases", "logicalType"] ++
    match type with
    | .enum .. => ["symbols"]
    | .fixed .. => ["size"]
    | _ => []
  return ({ name, aliases := fieldAliases ms, default, attributes := attributesBut known ms },
    type)

/-- The names of a field: its own and its aliases. -/
def fieldNames (ms : Object) : List String := (textMember ms "name").toList ++ fieldAliases ms

/-- A record. -/
def readRecord (read : Place → Json → Option String → Reader Schema) (enclosing : Option String)
    (ms : Object) : Reader Schema := do
  let n ← (nameOf ms enclosing : Option Name)
  let aliases ← (aliasesOf ms n : Option (List Name))
  beginType n aliases
  let fields ← match Members.get? "fields" ms with
    | some (.array xs) => pure (xs.filterMap fun
      | .object f => some f
      | _ => none)
    | _ => failure
  let types ← fields.mapM (readField read n.space)
  let names := fields.flatMap fieldNames
  guard (names.eraseDups.length = names.length)
  let t := Schema.record n types (attributesBut ("fields" :: commonMembers) ms)
  endType n aliases t
  return t

/-- An enumeration. -/
def readEnum (enclosing : Option String) (ms : Object) : Reader Schema := do
  let n ← (nameOf ms enclosing : Option Name)
  let aliases ← (aliasesOf ms n : Option (List Name))
  let symbols ← ((Members.get? "symbols" ms).bind textsOf : Option (List String))
  guard (symbols.all fun s => isIdentifier s.toList)
  guard (symbols.eraseDups.length = symbols.length)
  let default ← match Members.get? "default" ms with
    | none => pure none
    | some (.string s) => if symbols.contains s then pure (some s) else failure
    | some _ => failure
  let t := Schema.enum n symbols default
    (attributesBut ("symbols" :: "default" :: commonMembers) ms)
  endType n aliases t
  return t

/-- A fixed number of bytes. -/
def readFixed (enclosing : Option String) (ms : Object) : Reader Schema := do
  let n ← (nameOf ms enclosing : Option Name)
  let aliases ← (aliasesOf ms n : Option (List Name))
  let size ← ((Members.get? "size" ms).bind (Json.natural? 64) : Option Nat)
  guard (((textMember ms "default").map fun s => s.utf8ByteSize == size).getD true)
  let t := Schema.fixed n size (attributesBut ("size" :: commonMembers) ms)
  endType n aliases t
  return t

/-- The type under a logical one. -/
def readBase (read : Place → Json → Option String → Reader Schema) (enclosing : Option String)
    (ms : Object) : Reader Schema := do
  match Members.get? "type" ms with
  | some (.string "fixed") => readFixed enclosing ms
  | some v => read .type v enclosing
  | none => failure

/-- The precision and the scale of a decimal, which is not smaller than the scale. -/
def decimalParts (ms : Object) : Option (Nat × Nat) := do
  let precision ← (Members.get? "precision" ms).bind (Json.natural? 64)
  let scale ← match Members.get? "scale" ms with
    | none => some 0
    | some v => v.natural? 64
  guard (1 ≤ precision ∧ scale ≤ precision)
  return (precision, scale)

/-- The logical type with a name over a type, if it fits. -/
def convert (ms : Object) (logical : String) (base : Schema) : Schema :=
  match logical, base with
  | "decimal", .bytes | "decimal", .fixed .. =>
    match decimalParts ms with
    | some (precision, scale) => .decimal precision scale base
    | none => base
  | "big-decimal", .bytes => .bigDecimal
  | "uuid", .string => .uuid
  | "uuid", .fixed _ 16 _ => .uuid
  | "duration", .fixed .. => .duration
  | _, .int =>
    match IntegerKind.ofName? logical with
    | some k => if k.isShort then .integer k else base
    | none => base
  | _, .long =>
    match IntegerKind.ofName? logical with
    | some k => if k.isShort then base else .integer k
    | none => base
  | _, _ => base

/-- The names of logical types. -/
def isLogical (s : String) : Bool :=
  ["decimal", "big-decimal", "uuid", "duration"].contains s || (IntegerKind.ofName? s).isSome

/-- The type that an object spells, leaving logical types aside. -/
def readPlain (read : Place → Json → Option String → Reader Schema) (place : Place)
    (enclosing : Option String) (ms : Object) : Reader Schema := do
  match Members.get? "type" ms with
  | some (.string "record") =>
    match place with
    | .type => readRecord read enclosing ms
    | .field => failure
  | some (.string "enum") => readEnum enclosing ms
  | some (.string "array") =>
    let items ← (Members.get? "items" ms : Option Json)
    return .array (← read .type items enclosing) (attributesBut ("items" :: commonMembers) ms)
  | some (.string "map") =>
    let values ← (Members.get? "values" ms : Option Json)
    return .map (← read .type values enclosing) (attributesBut ("values" :: commonMembers) ms)
  | some (.string "fixed") => readFixed enclosing ms
  | some (.string t) => named t enclosing
  | some (.object inner) => read .type (.object inner) enclosing
  | some (.array branches) => read .type (.array branches) enclosing
  | _ => failure

/-- The type that an object spells. -/
def readObject (read : Place → Json → Option String → Reader Schema) (place : Place)
    (enclosing : Option String) (ms : Object) : Reader Schema := do
  match Members.get? "logicalType" ms with
  | some (.string logical) =>
    if isLogical logical then return convert ms logical (← readBase read enclosing ms)
    else readPlain read place enclosing ms
  | some _ => failure
  | none => readPlain read place enclosing ms

/-- The type that a value spells, in the scope of a namespace; `depth` bounds the nesting. -/
def read : (depth : Nat) → Place → Json → (enclosing : Option String) → Reader Schema
  | 0, _, _, _ => failure
  | depth + 1, place, v, enclosing =>
    match v with
    | .string t => named t enclosing
    | .object ms => readObject (read depth) place enclosing ms
    | .array xs => do
      let branches ← xs.mapM fun x => read depth .type x enclosing
      if isUnion branches then pure (.union branches) else failure
    | _ => failure

/-- More than the nesting of any JSON text. -/
def maxDepth : Nat := 256

/-- The schema that a JSON value spells. -/
def ofJson? (v : Json) : Option Schema := (read maxDepth .type v none {}).map (·.1)

end ObjectFeed.Avro.Schema
