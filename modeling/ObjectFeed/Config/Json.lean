import ObjectFeed.Config
import ObjectFeed.Json.Typed

/-!
# Configuration as JSON

The JSON form of the settings, in the order in which they are declared, and its reader. Fields
may come in any order, unknown ones are ignored, and missing ones have their defaults.

* `FeedConfig.json`, `DecoderConfig.json`: the JSON form.
* `FeedConfig.ofJson`, `DecoderConfig.ofJson`: its readers.
-/

namespace ObjectFeed

open Json.Reader

namespace DecoderConfig

/-- The JSON form. -/
def json (c : DecoderConfig) : Json :=
  .object
    [("max_buffer_size", .ofNat c.chunkSize.toNat),
      ("schemas_enable", .bool c.envelopes),
      ("temp_dir", .ofOption .string c.scratch)]

/-- The fields, in the order of the JSON form. -/
def fields (limit : Nat) : List (Member DecoderConfig) :=
  [⟨"max_buffer_size", fun c => do
      let n ← integer limit 0 (pow2 64 - 1) "usize"
      pure { c with chunkSize := n.toNat.toUInt64 }⟩,
    ⟨"schemas_enable", fun c => return { c with envelopes := ← flag limit }⟩,
    ⟨"temp_dir", fun c => return { c with scratch := ← optional (text limit "path string") }⟩]

/-- Reads the JSON form. -/
def reader (limit : Nat) : Json.Reader DecoderConfig :=
  record limit "struct TransformerConfig" (fields limit) {}

/-- The settings in a JSON text. -/
def ofJson (s : String) : Except Json.Error DecoderConfig :=
  (reader s.toList.length).run s.toList

end DecoderConfig

namespace FeedConfig

/-- The JSON form. -/
def json (c : FeedConfig) : Json :=
  .object
    [("bucket", .string c.bucket),
      ("prefix", .ofOption .string c.keyPrefix),
      ("fetch_page_size", .ofNat c.fetchPageSize.toNat),
      ("task_id", .ofOption (fun n : Int64 => .ofInt n.toInt) c.taskId),
      ("max_tasks", .ofOption (fun n : Int64 => .ofInt n.toInt) c.maxTasks),
      ("input_format", .string c.format.name),
      ("transformer", c.decoder.json),
      ("errors_tolerance", .string c.tolerance.name),
      ("file_name_template", .string c.template),
      ("target_topic", .ofOption .string c.topic),
      ("max_poll_records", .ofNat c.maxPollRecords.toNat)]

/-- A 64-bit integer. -/
def word (limit : Nat) : Json.Reader Int64 := do
  let n ← integer limit (-(pow2 63 : Int)) (pow2 63 - 1) "i64"
  pure (.ofInt n)

/-- The fields, in the order of the JSON form. -/
def fields (limit : Nat) : List (Member FeedConfig) :=
  [⟨"bucket", fun c => return { c with bucket := ← text limit "a string" }⟩,
    ⟨"prefix", fun c => return { c with keyPrefix := ← optional (text limit "a string") }⟩,
    ⟨"fetch_page_size", fun c => do
      let n ← integer limit 0 (pow2 32 - 1) "u32"
      pure { c with fetchPageSize := n.toNat.toUInt32 }⟩,
    ⟨"task_id", fun c => return { c with taskId := ← optional (word limit) }⟩,
    ⟨"max_tasks", fun c => return { c with maxTasks := ← optional (word limit) }⟩,
    ⟨"input_format", fun c => do
      pure { c with format := ← oneOf limit (Format.all.map fun f => (f.name, f)) }⟩,
    ⟨"transformer", fun c => return { c with decoder := ← DecoderConfig.reader limit }⟩,
    ⟨"errors_tolerance", fun c => do
      pure { c with tolerance := ← oneOf limit [("none", .none), ("all", .all)] }⟩,
    ⟨"file_name_template", fun c => return { c with template := ← text limit "a string" }⟩,
    ⟨"target_topic", fun c => return { c with topic := ← optional (text limit "a string") }⟩,
    ⟨"max_poll_records", fun c => do
      let n ← integer limit 0 (pow2 64 - 1) "usize"
      pure { c with maxPollRecords := n.toNat.toUInt64 }⟩]

/-- Reads the JSON form. -/
def reader (limit : Nat) : Json.Reader FeedConfig :=
  record limit "struct SourceConfig" (fields limit) {}

/-- The settings in a JSON text. -/
def ofJson (s : String) : Except Json.Error FeedConfig :=
  (reader s.toList.length).run s.toList

end FeedConfig

end ObjectFeed
