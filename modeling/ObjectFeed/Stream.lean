import ObjectFeed.Decoder

/-!
# Streams of records

A stream delivers the records of one object once. The object is fetched when the first record is
wanted. Records that the offset already counts are decoded and counted again, but not delivered.
The object is released once: at its end, at a failure, or when the stream is closed. No object has
as many records as 64 bits have counts, so the count of a stream does not wrap around.

* `RecordStream.start`: a stream on an object, from an offset on.
* `Decoder.pull`: passes over a number of records and returns the one after them.
* `RecordStream.next`: the next record.
* `RecordStream.close`: releases the object; `drop` and `intoOffset` end the stream.
-/

namespace ObjectFeed

/-- How a decoder goes on after a number of records. -/
inductive Pulled where
  | record (r : Record) (d : Decoder)
  | ended
  | failed (e : DecodeError)

/-- Passes over `skip` records and returns the one after them, with the number of records that
were decoded. -/
def Decoder.pull : (skip : Nat) → Decoder → Pulled × Nat
  | skip, d =>
    match d.next with
    | (.error e, _) => (.failed e, 0)
    | (.ok none, _) => (.ended, 0)
    | (.ok (some r), d) =>
      match skip with
      | 0 => (.record r d, 1)
      | skip + 1 =>
        let (p, n) := Decoder.pull skip d
        (p, n + 1)

/-- Whether the object of a stream is open. -/
inductive StreamState where
  | pending
  | reading (d : Decoder)
  | closed

/-- The records of one object. -/
structure RecordStream where
  settings : DecoderSettings
  bucket : String
  objectKey : String
  /-- The progress of the object. -/
  offset : Offset
  /-- The count from which records are delivered. -/
  resumeFrom : Nat
  state : StreamState := .pending

namespace RecordStream

variable {σ : Type} [ObjectStore σ]

/-- A stream that delivers the records after those that the offset counts. -/
def start (settings : DecoderSettings) (bucket objectKey : String) (offset : Offset) :
    RecordStream :=
  { settings, bucket, objectKey, offset, resumeFrom := offset.count }

/-- The object is not open and will not be. -/
def isClosed (s : RecordStream) : Bool := s.state matches .closed

/-- The start of the name of the local copy that the stream keeps. -/
def copy? (s : RecordStream) : Option String :=
  match s.state with
  | .reading d => d.copy?
  | _ => none

/-- Gives the body back, if a decoder still holds it. -/
def giveBack (s : StreamState) (store : σ) : σ :=
  match s with
  | .reading d => if d.holdsBody then ObjectStore.release store else store
  | _ => store

/-- Releases the object. The count does not end below the one the stream resumed from. -/
def close (s : RecordStream) (store : σ) : RecordStream × σ :=
  ({ s with state := .closed, offset := s.offset.raiseTo s.resumeFrom }, giveBack s.state store)

/-- Gives the stream up; what is still open is released. -/
def drop (s : RecordStream) (store : σ) : σ := (s.close store).2

/-- Closes the stream and hands its offset out. The stream that is left is given up. -/
def intoOffset (s : RecordStream) (store : σ) : Offset × σ :=
  let (s, store) := s.close store
  (s.offset, drop { s with offset := { key := s.offset.key } } store)

/-- Fetches the object and opens a decoder, unless that has been tried before. -/
def «open» (s : RecordStream) (store : σ) : Option Error × RecordStream × σ :=
  match s.state with
  | .pending =>
    match ObjectStore.fetch store s.bucket s.objectKey with
    | (.error e, store) => (some (.store e), { s with state := .closed }, store)
    | (.ok body, store) =>
      match Decoder.open s.settings body s.offset.key with
      | .error e =>
        (some (.decode s.offset.key.objectKey e), { s with state := .closed },
          ObjectStore.release store)
      | .ok d =>
        (none,
          { s with
            state := .reading d, resumeFrom := s.offset.count, offset := s.offset.rewind },
          if d.holdsBody then store else ObjectStore.release store)
  | _ => (none, s, store)

/-- The next record of an open object that is to be delivered. -/
def read (s : RecordStream) (store : σ) :
    Option (Except Error Record) × RecordStream × σ :=
  match s.state with
  | .reading d =>
    let (p, n) := d.pull (s.resumeFrom - s.offset.count)
    let s := { s with offset := { s.offset with count := s.offset.count + n } }
    match p with
    | .record r d => (some (.ok r), { s with state := .reading d }, store)
    | .ended =>
      let (s, store) := s.close store
      (none, s, store)
    | .failed e =>
      let (s, store) := s.close store
      (some (.error (.decode s.offset.key.objectKey e)), s, store)
  | _ => (none, s, store)

/-- The next record, which opens the object at first. -/
def next (s : RecordStream) (store : σ) : Option (Except Error Record) × RecordStream × σ :=
  match s.open store with
  | (some e, s, store) => (some (.error e), s, store)
  | (none, s, store) => s.read store

end RecordStream

end ObjectFeed
