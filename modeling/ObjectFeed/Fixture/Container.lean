import ObjectFeed.Avro.Container
import ObjectFeed.Avro.Datum.Writer
import ObjectFeed.Fixture.Reading

/-!
# Sample containers

Sample readings in an Avro container, by any schema of records that admits them.

* `Fixture.container`: the container of some readings.
-/

namespace ObjectFeed.Fixture

open Avro

/-- Why a sample cannot be written. -/
inductive FixtureError where
  /-- The text is no schema. -/
  | schema
  /-- A reading does not match the schema. -/
  | row
deriving DecidableEq, Repr

/-- The wording of a cause. -/
def FixtureError.message : FixtureError → String
  | .schema => "parse Avro schema"
  | .row => "append Avro record"

/-- The marker after the header and after every block. -/
def marker : Bytes := List.replicate Container.markerSize 0x2A

/-- The header with a schema. -/
def header (s : Schema) : Bytes :=
  let member (k v : String) : Bytes :=
    Writer.counted (Bytes.ofText k) ++ Writer.counted (Bytes.ofText v)
  let members := [member "avro.schema" s.json.compact, member "avro.codec" "null"]
  Container.magic ++ Writer.block members ++ marker

/-- Readings are written as records, or as branches of a union. -/
def admitsRecords : Schema → Bool
  | .record .. => true
  | .union _ => true
  | _ => false

/-- The binary form of a reading by a schema. -/
def row? (s : Schema) (ds : Schema.Definitions) (r : Reading) : Option Bytes :=
  if admitsRecords s then Writer.write? ds Writer.maxDepth s r.json else none

/-- The container of readings by the schema that a text spells; without readings it has no
block. -/
def container (schemaText : String) (rows : List Reading) : Except FixtureError Bytes :=
  match (Json.parse schemaText.toList).toOption.bind Schema.ofJson? with
  | none => .error .schema
  | some s =>
    match rows.mapM (row? s (s.definitions.getD [])) with
    | none => .error .row
    | some [] => .ok (header s)
    | some forms =>
      let data := forms.flatten
      .ok (header s ++ Writer.long forms.length ++ Writer.counted data ++ marker)

end ObjectFeed.Fixture
