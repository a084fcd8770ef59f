import ObjectFeed.Config.Error
import ObjectFeed.Json.Error
import ObjectFeed.Offset
import ObjectFeed.Store

/-!
# Errors of a feed

* `DecodeError`: why an object is malformed, with the step of its decoding at which that shows.
* `Error`: all failures of a feed, with their wording.
-/

namespace ObjectFeed

/-- Why an object is malformed. -/
inductive DecodeError where
  /-- A read failed. -/
  | readBytes (cause : String)
  /-- A line cannot be read. -/
  | readLine (line : Nat) (cause : String)
  /-- A line is no JSON text. -/
  | parseLine (line : Nat) (text : String) (cause : Json.Error)
  /-- A line is no object where envelopes are expected. -/
  | notEnvelope (line : Nat)
  /-- An envelope lacks a field. -/
  | incompleteEnvelope (line : Nat)
  /-- A container has no header. -/
  | containerHeader
  /-- A record of a container cannot be read. -/
  | readRecord (index : Nat)
  /-- A record of a container has no JSON form. -/
  | convertRecord (index : Nat)
  /-- The local copy of a columnar file, at a path, cannot be created in a directory or in the
  default one. -/
  | createCopy (directory : Option String) (path : String)
  /-- The local copy of a columnar file, at a path, cannot be written. -/
  | writeCopy (path cause : String)
  /-- A columnar file has no readable footer. -/
  | openColumns
  /-- The columns of a file have no reader. -/
  | buildColumns
  /-- A batch of rows cannot be read. -/
  | readBatch
  /-- A batch of rows has no JSON form. -/
  | convertBatch
deriving DecidableEq, Repr

/-- The text of invalid UTF-8 among lines. -/
def invalidText : String := "stream did not contain valid UTF-8"

/-- The wording of a cause. Of what goes wrong inside a container or a columnar file only the
step is named, and so it is when a copy is refused: the system's reason and the path follow. -/
def DecodeError.message : DecodeError → String
  | .readBytes cause => "read object bytes: " ++ cause
  | .readLine line cause => "read line " ++ toString line ++ ": " ++ cause
  | .parseLine line text cause =>
    "parse JSONL line " ++ toString line ++ ": " ++ text ++ ": " ++ cause.message
  | .notEnvelope line => "line " ++ toString line ++ ": expected a schema/payload envelope"
  | .incompleteEnvelope line =>
    "line " ++ toString line ++ ": envelope must contain 'schema' and 'payload' fields"
  | .containerHeader => "read Avro container header"
  | .readRecord index => "read Avro record " ++ toString index
  | .convertRecord index => "convert Avro record " ++ toString index
  | .createCopy none _ => "create temp file"
  | .createCopy (some directory) _ => "create temp file in " ++ directory
  | .writeCopy path cause => "materialize object to " ++ path ++ ": " ++ cause
  | .openColumns => "open ParquetRecordBatchReader"
  | .buildColumns => "build ParquetRecordBatchReader"
  | .readBatch => "read next batch"
  | .convertBatch => "convert RecordBatch to JSON"

/-- A failure of a feed. -/
inductive Error where
  | store (e : StoreError)
  | decode (key : String) (e : DecodeError)
  | offset (e : OffsetError)
  | restricted (name : String)
  | config (e : ConfigError)

/-- The wording of a failure. -/
def Error.message : Error → String
  | .store e => "object store error: " ++ e.text
  | .decode key e => "failed to decode object " ++ key ++ ": " ++ e.message
  | .offset e => "cannot reconstruct offset entry: " ++ e.message
  | .restricted name =>
    "'" ++ name ++ "' is a restricted key and may not be set using set_property()"
  | .config e => "invalid configuration: " ++ e.message

end ObjectFeed
