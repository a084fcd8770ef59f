import ObjectFeed.Listing
import ObjectFeed.Offset.Cache
import ObjectFeed.Stream
import ObjectFeed.Template

/-!
# Feeds

A feed delivers the records of one worker's objects, object by object in key order. When the
listing runs out, the next pull lists the keys after the last one seen, so that the end of a feed
means that there is nothing new. A pull is a sequence of turns, each of which makes at most one
step of a listing or of a stream.

* `Feed.start`: a feed with given settings.
* `Feed.turn`: one turn; `Feed.pull` takes turns until there is an outcome.
* `Feed.poll`: a batch of records; an error after some records is held back.
* `Feed.close`: releases the object that is being read, which is resumed later.
-/

namespace ObjectFeed

/-- A record with its destination and the offset that includes it. -/
structure Delivery where
  topic : String
  partition : Option UInt32
  key : Bytes
  payload : Payload
  schema : Option String
  /-- The identity of the object. -/
  identity : Properties
  /-- The progress of the object. -/
  offset : Properties

/-- The object that is being read. -/
structure InFlight where
  summary : Summary
  stream : RecordStream

/-- The stores and the offset cache, which feeds can share. -/
structure World (σ τ : Type) where
  objects : σ
  offsets : τ
  cache : OffsetCache := {}

/-- A worker's feed. -/
structure Feed where
  settings : DecoderSettings
  template : Template
  topic : Option String
  tolerance : Tolerance
  maxPollRecords : Nat
  lister : Lister
  filter : TaskFilter
  listing : Option Listing := none
  /-- The last key that a listing delivered. -/
  lastKey : Option String := none
  current : Option InFlight := none
  /-- The object to read next, before any other. -/
  pending : Option Summary := none
  /-- The error that the next poll returns. -/
  deferred : Option Error := none
  terminated : Bool := false

namespace Feed

variable {σ τ : Type} [ObjectStore σ] [OffsetStore τ]

/-- A feed with given settings and failed keys. -/
def start (d : Directories) (c : FeedConfig) (failed : KeySet) : Except ConfigError Feed := do
  let template ← Template.compile c.template
  let settings ← DecoderSettings.ofConfig d c.format c.decoder
  return {
    settings, template
    topic := c.topic
    tolerance := c.tolerance
    maxPollRecords := max c.maxPollRecords.toNat 1
    lister := ⟨c.bucket, c.keyPrefix, c.pageSize⟩
    filter := { assignment := .resolve c.taskId c.maxTasks, failed } }

/-- The key payload of the records of an object. -/
def keyData (objectKey : String) : Bytes := Bytes.ofText objectKey

/-- The identity of an object, unless its key does not fit the template or it has no
destination. -/
def identify (f : Feed) (objectKey : String) : Option OffsetKey := do
  let m ← f.template.match? objectKey
  let topic ← f.topic <|> m.topic
  return { bucket := f.lister.bucket, topic, partition := m.partition, objectKey }

/-- What a turn leads to: the outcome of the pull, or another turn, which knows whether the pull
has begun a listing since it last took up an object. -/
inductive Turn (σ τ : Type) where
  | outcome (r : Option (Except Error Delivery)) (f : Feed) (w : World σ τ)
  | again (listed : Bool) (f : Feed) (w : World σ τ)

/-- After a failure of a store an object is read again if the failure may clear up. -/
def afterStoreError (f : Feed) (s : Summary) (e : StoreError) : Feed :=
  if e.isTransient then { f with pending := some s } else f

/-- Takes up an object: looks its offset up and prepares its stream. -/
def take (f : Feed) (s : Summary) (w : World σ τ) : Turn σ τ :=
  match f.identify s.key with
  | none => .again false f w
  | some k =>
    match w.cache.get w.offsets k with
    | (.ok o, cache, offsets) =>
      let stream := RecordStream.start f.settings f.lister.bucket s.key o
      .again false { f with current := some ⟨s, stream⟩ } { w with cache, offsets }
    | (.error (.store e), cache, offsets) =>
      .outcome (some (.error (.store e))) (f.afterStoreError s e) { w with cache, offsets }
    | (.error e, cache, offsets) =>
      .outcome (some (.error e)) { f with terminated := true } { w with cache, offsets }

/-- Moves the listing on. -/
def search (f : Feed) (l : Listing) (listed : Bool) (w : World σ τ) : Turn σ τ :=
  match l.step w.objects with
  | (.item s, l, objects) =>
    let f := { f with listing := some l, lastKey := some s.key }
    let w := { w with objects }
    if f.filter.accepts s then f.take s w else .again listed f w
  | (.fetched, l, objects) => .again listed { f with listing := some l } { w with objects }
  | (.ended, _, objects) => .again listed { f with listing := none } { w with objects }
  | (.failed e, _, objects) =>
    .outcome (some (.error (.store e))) { f with listing := none } { w with objects }

/-- The record of an object that is being read. -/
def deliver (c : InFlight) (r : Record) : Delivery :=
  let o := c.stream.offset
  { topic := o.key.topic, partition := o.key.partition, key := keyData c.summary.key,
    payload := r.payload, schema := r.schema, identity := o.key.properties,
    offset := o.properties }

/-- Gives an object up after a failure of its stream. -/
def afterStreamError (f : Feed) (s : Summary) (e : Error) (w : World σ τ) : Turn σ τ :=
  match e with
  | .store e => .outcome (some (.error (.store e))) (f.afterStoreError s e) w
  | e =>
    match f.tolerance with
    | .none => .outcome (some (.error e)) { f with terminated := true } w
    | .all => .again false { f with filter := f.filter.markFailed s.key } w

/-- Moves the stream of the current object on. -/
def advance (f : Feed) (c : InFlight) (w : World σ τ) : Turn σ τ :=
  match c.stream.next w.objects with
  | (some (.ok r), stream, objects) =>
    let c := { c with stream }
    .outcome (some (.ok (deliver c r))) { f with current := some c }
      { w with objects, cache := w.cache.update stream.offset }
  | (some (.error e), stream, objects) =>
    let (_, objects) := stream.close objects
    { f with current := none }.afterStreamError c.summary e { w with objects }
  | (none, stream, objects) =>
    .again false { f with current := none }
      { w with objects, cache := w.cache.update stream.offset }

/-- One turn of a pull. -/
def turn (f : Feed) (listed : Bool) (w : World σ τ) : Turn σ τ :=
  if f.terminated then .outcome none f w
  else
    match f.current, f.pending, f.listing with
    | some c, _, _ => f.advance c w
    | none, some s, _ => { f with pending := none }.take s w
    | none, none, some l => f.search l listed w
    | none, none, none =>
      -- a listing that this pull began has found nothing new
      if listed then .outcome none f w
      else .again true { f with listing := some (f.lister.start f.lastKey) } w

/-- Takes turns until there is an outcome; `limit` bounds the turns. -/
def pull : (limit : Nat) → (listed : Bool) → Feed → World σ τ →
    Option (Except Error Delivery) × Feed × World σ τ
  | 0, _, f, w => (none, f, w)
  | limit + 1, listed, f, w =>
    match f.turn listed w with
    | .outcome r f w => (r, f, w)
    | .again listed f w => pull limit listed f w

/-- Up to `n` more records after those of a batch, up to the first outcome that is no record. -/
def collect (limit : Nat) : (n : Nat) → (batch : List Delivery) → Feed → World σ τ →
    Except Error (List Delivery) × Feed × World σ τ
  | 0, batch, f, w => (.ok batch, f, w)
  | n + 1, batch, f, w =>
    match f.pull limit false w with
    | (some (.ok r), f, w) => collect limit n (batch ++ [r]) f w
    | (some (.error e), f, w) =>
      if batch.isEmpty then (.error e, f, w) else (.ok batch, { f with deferred := some e }, w)
    | (none, f, w) => (.ok batch, f, w)

/-- A batch of up to `n` records. An error after some records is held back for the next call. -/
def poll (limit n : Nat) (f : Feed) (w : World σ τ) :
    Except Error (List Delivery) × Feed × World σ τ :=
  match f.deferred with
  | some e => (.error e, { f with deferred := none }, w)
  | none => collect limit n [] f w

/-- Releases the object that is being read. It is read again before any other. -/
def close (f : Feed) (w : World σ τ) : Feed × World σ τ :=
  match f.current with
  | none => (f, w)
  | some c =>
    let (stream, objects) := c.stream.close w.objects
    ({ f with current := none, pending := some c.summary },
      { w with objects, cache := w.cache.update stream.offset })

end Feed

end ObjectFeed
