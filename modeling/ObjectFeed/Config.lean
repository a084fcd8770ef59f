import ObjectFeed.Power

/-!
# Configuration of a feed

What one worker reads, how it decodes it, and what happens when an object is malformed.

* `Format`, `Tolerance`: the choices by name, with their readers `Format.ofText?` and
  `Tolerance.ofText?`.
* `DecoderConfig`, `FeedConfig`: the settings and their defaults.
* `FeedConfig.pageSize`: the page size of listing requests.
-/

namespace ObjectFeed

/-- The formats of objects. -/
inductive Format where
  | bytes
  | jsonl
  | avro
  | parquet
deriving DecidableEq, Repr, Inhabited

namespace Format

/-- The name of a format. -/
def name : Format → String
  | .bytes => "bytes"
  | .jsonl => "jsonl"
  | .avro => "avro"
  | .parquet => "parquet"

/-- All formats. -/
def all : List Format := [.bytes, .jsonl, .avro, .parquet]

/-- The format with a name. -/
def ofName? (s : String) : Option Format := all.find? (·.name == s)

theorem ofName?_name (f : Format) : ofName? f.name = some f := by cases f <;> decide

end Format

/-- What happens when an object is malformed. -/
inductive Tolerance where
  /-- The worker stops. -/
  | none
  /-- The object is skipped for the rest of the run. -/
  | all
deriving DecidableEq, Repr, Inhabited

namespace Tolerance

/-- The name of a choice. -/
def name : Tolerance → String
  | .none => "none"
  | .all => "all"

/-- The choice with a name. -/
def ofName? (s : String) : Option Tolerance :=
  [Tolerance.none, Tolerance.all].find? (·.name == s)

theorem ofName?_name (t : Tolerance) : ofName? t.name = some t := by cases t <;> decide

end Tolerance

/-- Settings of the decoders. -/
structure DecoderConfig where
  /-- The size of the chunks of raw bytes. -/
  chunkSize : UInt64 := 4096
  /-- Every JSON line is an envelope of a schema and a payload. -/
  envelopes : Bool := false
  /-- The directory of local copies, if not the default one. -/
  scratch : Option String := none
deriving DecidableEq, Repr, Inhabited

/-- The template of object keys that holds unless another one is set. -/
def defaultTemplate : String :=
  "\x7b\x7btopic\x7d\x7d-\x7b\x7bpartition\x7d\x7d-\x7b\x7bstart_offset\x7d\x7d"

/-- Settings of one worker. -/
structure FeedConfig where
  bucket : String := ""
  /-- Only keys that start with it are listed. -/
  keyPrefix : Option String := none
  /-- Half of the page size of listing requests. -/
  fetchPageSize : UInt32 := 10
  /-- The worker's ordinal, reduced modulo the number of workers. -/
  taskId : Option Int64 := none
  /-- The number of workers, one if it is not positive. -/
  maxTasks : Option Int64 := none
  format : Format := .bytes
  decoder : DecoderConfig := {}
  tolerance : Tolerance := .none
  template : String := defaultTemplate
  /-- The destination of all records, instead of the one in the object key. -/
  topic : Option String := none
  /-- The largest number of records of one poll. -/
  maxPollRecords : UInt64 := 500
deriving DecidableEq, Repr, Inhabited

/-- The page size of listing requests: twice the configured one, as far as 32 bits go. -/
def FeedConfig.pageSize (c : FeedConfig) : Nat := min (2 * c.fetchPageSize.toNat) (pow2 32 - 1)

end ObjectFeed
