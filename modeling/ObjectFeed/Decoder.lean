import ObjectFeed.Avro.Container
import ObjectFeed.Decoder.Chunks
import ObjectFeed.Decoder.Lines
import ObjectFeed.Parquet.Rows
import ObjectFeed.Scratch

/-!
# Decoders

A decoder turns an open object into records, one at a time.

* `DecoderSettings.ofConfig`: the settings for a format.
* `Decoder.open`: a decoder for a body.
* `Decoder.next`: the next record.
-/

namespace ObjectFeed

/-- How objects are decoded. -/
inductive DecoderSettings where
  | bytes (chunkSize : Nat)
  | jsonl (envelopes : Bool)
  | avro
  | parquet (scratch : Scratch)

namespace DecoderSettings

/-- The settings for a format; chunks must not be empty, but may be larger than any buffer. -/
def ofConfig (d : Directories) (f : Format) (c : DecoderConfig) :
    Except ConfigError DecoderSettings :=
  match f with
  | .bytes => if c.chunkSize = 0 then .error .noChunkSize else .ok (.bytes c.chunkSize.toNat)
  | .jsonl => .ok (.jsonl c.envelopes)
  | .avro => .ok .avro
  | .parquet => .ok (.parquet ⟨c.scratch, d⟩)

/-- The format that the settings are for. -/
def format : DecoderSettings → Format
  | .bytes _ => .bytes
  | .jsonl _ => .jsonl
  | .avro => .avro
  | .parquet _ => .parquet

end DecoderSettings

/-- An object that is being decoded. -/
inductive Decoder where
  | chunks (d : Chunks)
  | lines (d : Lines)
  | container (d : Avro.Container)
  /-- The rows of a local copy, with the start of its name. -/
  | rows (copy : String) (d : Parquet.Rows)

namespace Decoder

/-- The start of the name of a local copy: the destination of the records. -/
def copyStart (k : OffsetKey) : String :=
  let partition := match k.partition with
    | some p => toString p
    | none => "null"
  k.topic ++ "_" ++ partition ++ "_"

/-- The rows of a local copy of a body. -/
def ofCopy (s : Scratch) (start : String) (body : Body) : Except DecodeError Decoder :=
  if !s.canCreate start then .error (.createCopy s.directory (s.path start))
  else
    match body.readAll with
    | .error cause => .error (.writeCopy (s.path start) cause)
    | .ok file => (Parquet.Rows.ofFile file).map (.rows start)

/-- A decoder for a body. -/
def «open» (s : DecoderSettings) (body : Body) (k : OffsetKey) : Except DecodeError Decoder :=
  match s with
  | .bytes chunkSize => .ok (.chunks ⟨chunkSize, body⟩)
  | .jsonl envelopes => .ok (.lines { body, envelopes })
  | .avro => (Avro.Container.ofBody? body).elim (.error .containerHeader) (.ok <| .container ·)
  | .parquet scratch => ofCopy scratch (copyStart k) body

/-- The next record, or nothing at the end. -/
def next : Decoder → Except DecodeError (Option Record) × Decoder
  | .chunks d => let (r, d) := d.next; (r, .chunks d)
  | .lines d => let (r, d) := d.next; (r, .lines d)
  | .container d => let (r, d) := d.next; (r, .container d)
  | .rows copy d => let (r, d) := d.next; (r, .rows copy d)

/-- The decoder still reads the body that it was opened for, not a copy. -/
def holdsBody : Decoder → Bool
  | .rows .. => false
  | _ => true

/-- The start of the name of the decoder's local copy. -/
def copy? : Decoder → Option String
  | .rows copy _ => some copy
  | _ => none

end Decoder

end ObjectFeed
