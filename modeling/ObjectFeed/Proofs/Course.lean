import Mathlib.Data.List.Basic
import ObjectFeed.Feed
import ObjectFeed.Proofs.Holding
import ObjectFeed.Proofs.Transcript

/-!
# The course of a feed

What a feed is going to deliver from a state on, as a function of what the stores hold and of
the offset cache: no pages, no streams and no retries.

* `Transcript.yield`: the deliveries of an object from an offset on, and its failure.
* `Course.ofYields`: the deliveries of several objects, under a tolerance of failures.
* `Feed.reference`: **the course of a whole run**, over the stored keys in their order.
* `Feed.course`: the course from any state on; `Feed.course_fresh` says that a run begins with
  its reference.
-/

namespace ObjectFeed

open MemoryObjects (isAfter matching startsWith)

/-- What the stores of a feed hold: the objects of its bucket, and progress by identity. -/
structure Holdings where
  objects : Dict Body
  persisted : OffsetKey → Option Properties

/-- The stores hold the objects of the bucket, and the progress. -/
def World.Holds {σ τ : Type} [ObjectStore σ] [ObjectHolder σ] [OffsetStore τ] [OffsetHolder τ]
    (w : World σ τ) (bucket : String) (H : Holdings) : Prop :=
  ObjectHolder.Holds w.objects bucket H.objects ∧ OffsetHolder.Holds w.offsets H.persisted

/-- The failures of both stores that are still to come. -/
def World.faults {σ τ : Type} [ObjectStore σ] [ObjectHolder σ] [OffsetStore τ] [OffsetHolder τ]
    (w : World σ τ) : Nat := ObjectHolder.faults w.objects + OffsetHolder.faults w.offsets

namespace Offset

/-- The delivery of the record at a place of its object, counted from 1. -/
def delivery (o : Offset) (objectKey : String) (place : Nat) (r : Record) : Delivery :=
  { topic := o.key.topic, partition := o.key.partition, key := Feed.keyData objectKey,
    payload := r.payload, schema := r.schema, identity := o.key.properties,
    offset := { o with count := place }.properties }

/-- The deliveries of records in a row, of which the first is at the place after `place`. -/
def deliveries (o : Offset) (objectKey : String) : (place : Nat) → List Record → List Delivery
  | _, [] => []
  | place, r :: rs =>
    o.delivery objectKey (place + 1) r :: o.deliveries objectKey (place + 1) rs

theorem deliveries_count (o : Offset) (n : Nat) (objectKey : String) (place : Nat)
    (rs : List Record) :
    { o with count := n }.deliveries objectKey place rs = o.deliveries objectKey place rs := by
  induction rs generalizing place with
  | nil => rfl
  | cons r rs ih => rw [deliveries, deliveries, ih]; rfl

end Offset

/-- What an object yields: deliveries, and the failure after them, if there is one. -/
structure Yield where
  deliveries : List Delivery
  failure : Option Error

/-- The yield with a delivery before it. -/
def Yield.push (d : Delivery) (y : Yield) : Yield := { y with deliveries := d :: y.deliveries }

/-- What an object yields from an offset on: the records of its full decode without those that
the offset counts, and the failure of the decode. -/
def Transcript.yield (t : Transcript) (o : Offset) (objectKey : String) : Yield :=
  ⟨o.deliveries objectKey o.count (t.records.drop o.count), t.failure.map (.decode objectKey)⟩

/-- An object with a record that the offset does not count yields its delivery first. -/
theorem Transcript.yield_of_lt {t : Transcript} {o : Offset} (h : o.count < t.records.length)
    (objectKey : String) :
    t.yield o objectKey =
      (t.yield o.next objectKey).push
        (o.delivery objectKey (o.count + 1) t.records[o.count]) := by
  unfold yield Offset.next Yield.push
  rw [List.drop_eq_getElem_cons h, Offset.deliveries]
  simp only [Offset.deliveries_count]

/-- An object whose records all are counted yields its failure alone. -/
theorem Transcript.yield_of_le {t : Transcript} {o : Offset} (h : t.records.length ≤ o.count)
    (objectKey : String) :
    t.yield o objectKey = ⟨[], t.failure.map (.decode objectKey)⟩ := by
  unfold yield
  rw [List.drop_eq_nil_of_le h, Offset.deliveries]

/-- What a feed delivers until there is nothing new, or up to a fatal failure, and the failed keys
and the state in which it ends. -/
structure Course where
  items : List (Except Error Delivery)
  failed : KeySet
  terminated : Bool

namespace Course

/-- The course with an item before it. -/
def push (x : Except Error Delivery) (c : Course) : Course := { c with items := x :: c.items }

/-- The course with deliveries before it. -/
def after (ds : List Delivery) (c : Course) : Course := { c with items := ds.map .ok ++ c.items }

/-- The course of several objects, each with its key. A failure ends it, or else is left out and
its key has failed. -/
def ofYields (t : Tolerance) : KeySet → List (String × Yield) → Course
  | failed, [] => ⟨[], failed, false⟩
  | failed, (key, y) :: ys =>
    match y.failure, t with
    | none, _ => (ofYields t failed ys).after y.deliveries
    | some _, .all => (ofYields t (failed.insert key ()) ys).after y.deliveries
    | some e, .none => after y.deliveries ⟨[.error e], failed, true⟩

theorem ofYields_push (t : Tolerance) (failed : KeySet) (key : String) (d : Delivery) (y : Yield)
    (ys : List (String × Yield)) :
    ofYields t failed ((key, y.push d) :: ys) =
      (ofYields t failed ((key, y) :: ys)).push (.ok d) := by
  obtain ⟨ds, failure⟩ := y
  cases failure <;> cases t <;> rfl

/-- A failure that is not tolerated ends the course. -/
theorem ofYields_fatal {t : Tolerance} (h : t = .none) (failed : KeySet) (key : String) (e : Error)
    (ys : List (String × Yield)) :
    ofYields t failed ((key, ⟨[], some e⟩) :: ys) = push (.error e) ⟨[], failed, true⟩ := by
  rw [h]
  rfl

/-- After a failure that is tolerated the course goes on without the key. -/
theorem ofYields_tolerated {t : Tolerance} (h : t = .all) (failed : KeySet) (key : String)
    (e : Error) (ys : List (String × Yield)) :
    ofYields t failed ((key, ⟨[], some e⟩) :: ys) = ofYields t (failed.insert key ()) ys := by
  rw [h]
  rfl

/-- If failures are tolerated the items are the deliveries of all objects. -/
theorem items_ofYields {t : Tolerance} (h : t = .all) (failed : KeySet)
    (ys : List (String × Yield)) :
    (ofYields t failed ys).items = (ys.flatMap fun y => y.2.deliveries).map .ok := by
  induction ys generalizing failed with
  | nil => rfl
  | cons y ys ih =>
    obtain ⟨key, ds, failure⟩ := y
    rw [List.flatMap_cons, List.map_append]
    cases failure with
    | none => exact congrArg (ds.map Except.ok ++ ·) (ih failed)
    | some e =>
      rw [h] at ih ⊢
      exact congrArg (ds.map Except.ok ++ ·) (ih (failed.insert key ()))

end Course

namespace Feed

/-- What the object with a key yields from an offset on. -/
def yieldFrom (f : Feed) (H : Holdings) (key : String) (o : Offset) : Yield :=
  (((H.objects.get? key).getD []).transcript f.settings o.key).yield o key

theorem yieldFrom_of_get {f : Feed} {H : Holdings} {key : String} {body : Body}
    (h : H.objects.get? key = some body) (o : Offset) :
    f.yieldFrom H key o = (body.transcript f.settings o.key).yield o key := by
  unfold yieldFrom
  rw [h]
  rfl

/-- What the object with a key yields from its progress on; nothing if it has no identity. -/
def yields (f : Feed) (H : Holdings) (c : OffsetCache) (key : String) : List (String × Yield) :=
  match f.identify key with
  | none => []
  | some k => [(key, f.yieldFrom H key (c.progress H.persisted k))]

/-- The objects that are stored after the last key seen. -/
def unseen (f : Feed) (H : Holdings) : List Summary :=
  matching H.objects f.lister.keyPrefix f.lastKey

/-- What the accepted objects after the last key seen yield. -/
def coming (f : Feed) (H : Holdings) (c : OffsetCache) : List (String × Yield) :=
  ((f.unseen H).filter f.filter.accepts).flatMap fun s => f.yields H c s.key

/-- What the object that is being read, the one that is to be read next and all accepted ones
after the last key seen yield. -/
def ahead (f : Feed) (H : Holdings) (c : OffsetCache) : List (String × Yield) :=
  (match f.current with
    | some x => [(x.summary.key, f.yieldFrom H x.summary.key x.stream.offset)]
    | none => []) ++
  (match f.pending with
    | some s => f.yields H c s.key
    | none => []) ++ f.coming H c

/-- The course from a state on. -/
def course (f : Feed) (H : Holdings) (c : OffsetCache) : Course :=
  if f.terminated then ⟨[], f.filter.failed, true⟩
  else .ofYields f.tolerance f.filter.failed (f.ahead H c)

/-- The object is one that a run reads: its key has the prefix, it is not empty, the worker owns
it, and it has not failed. -/
def selects (f : Feed) (m : String × Body) : Bool :=
  startsWith f.lister.keyPrefix m.1 && 0 < m.2.size && f.filter.assignment.owns m.1 &&
    !f.filter.failed.contains m.1

/-- What an object contributes to a run: its records after the persisted count, if its key fits
the template and has a destination. -/
def contribution (f : Feed) (H : Holdings) (m : String × Body) : List (String × Yield) :=
  match f.identify m.1 with
  | none => []
  | some k => [(m.1, (m.2.transcript f.settings k).yield (.recorded H.persisted k) m.1)]

/-- **The course of a whole run**: what the selected objects contribute, in ascending order of
their keys. -/
def reference (f : Feed) (H : Holdings) : Course :=
  .ofYields f.tolerance f.filter.failed
    ((H.objects.members.filter f.selects).flatMap (f.contribution H))

theorem identify_objectKey {f : Feed} {key : String} {k : OffsetKey} (h : f.identify key = some k) :
    k.objectKey = key := by
  unfold identify at h
  simp only [Option.bind_eq_bind, Option.bind_eq_some_iff, Option.pure_def,
    Option.some.injEq] at h
  obtain ⟨m, -, topic, -, rfl⟩ := h
  rfl

/-- A feed that has read nothing yet. -/
structure Fresh (f : Feed) : Prop where
  listing : f.listing = none
  lastKey : f.lastKey = none
  current : f.current = none
  pending : f.pending = none
  terminated : f.terminated = false

/-- A feed starts if its template and its decoder are in order. -/
theorem start_eq_ok_iff {d : Directories} {c : FeedConfig} {failed : KeySet} {f : Feed} :
    start d c failed = .ok f ↔ ∃ template settings,
      Template.compile c.template = .ok template ∧
      DecoderSettings.ofConfig d c.format c.decoder = .ok settings ∧
      f = { settings, template, topic := c.topic, tolerance := c.tolerance,
            maxPollRecords := max c.maxPollRecords.toNat 1,
            lister := ⟨c.bucket, c.keyPrefix, c.pageSize⟩,
            filter := { assignment := .resolve c.taskId c.maxTasks, failed } } := by
  unfold start
  cases Template.compile c.template with
  | error e => simp [bind, Except.bind]
  | ok template =>
    cases DecoderSettings.ofConfig d c.format c.decoder with
    | error e => simp [bind, Except.bind]
    | ok settings => simp [bind, Except.bind, pure, Except.pure, eq_comm]

theorem fresh_start {d : Directories} {c : FeedConfig} {failed : KeySet} {f : Feed}
    (h : start d c failed = .ok f) : f.Fresh := by
  obtain ⟨template, settings, -, -, rfl⟩ := start_eq_ok_iff.1 h
  exact ⟨rfl, rfl, rfl, rfl, rfl⟩

theorem bucket_start {d : Directories} {c : FeedConfig} {failed : KeySet} {f : Feed}
    (h : start d c failed = .ok f) : f.lister.bucket = c.bucket := by
  obtain ⟨template, settings, -, -, rfl⟩ := start_eq_ok_iff.1 h
  rfl

theorem tolerance_start {d : Directories} {c : FeedConfig} {failed : KeySet} {f : Feed}
    (h : start d c failed = .ok f) : f.tolerance = c.tolerance := by
  obtain ⟨template, settings, -, -, rfl⟩ := start_eq_ok_iff.1 h
  rfl

/-- With an empty cache an object yields what it contributes to a whole run. -/
theorem yields_of_mem {H : Holdings} (hr : Resumable H.persisted) (f : Feed) {m : String × Body}
    (hm : m ∈ H.objects.members) : f.yields H {} m.1 = f.contribution H m := by
  have hbody : H.objects.get? m.1 = some m.2 := Members.get?_of_mem H.objects.sorted hm
  unfold yields contribution
  cases f.identify m.1 with
  | none => rfl
  | some k =>
    have hprogress : OffsetCache.progress {} H.persisted k = .recorded H.persisted k := rfl
    simp only [yieldFrom_of_get hbody, hprogress, Offset.recorded_key hr]

/-- **A fresh feed with an empty cache is going to deliver its reference.** -/
theorem course_fresh {f : Feed} {H : Holdings} (h : f.Fresh) (hr : Resumable H.persisted) :
    f.course H {} = f.reference H := by
  have hahead : f.ahead H {} =
      (H.objects.members.filter f.selects).flatMap (f.contribution H) := by
    unfold ahead coming unseen matching
    rw [h.current, h.pending, h.lastKey, List.filter_map, List.filter_filter, List.flatMap_map,
      List.nil_append, List.nil_append]
    have hselects : ∀ m : String × Body, ((f.filter.accepts ∘ fun m => ⟨m.1, m.2.size⟩) m &&
        (startsWith f.lister.keyPrefix m.1 && isAfter none m.1)) = f.selects m := by
      intro m
      simp only [Function.comp, TaskFilter.accepts, isAfter, selects, Bool.true_and,
        Bool.and_assoc, Bool.and_comm, Bool.and_left_comm]
    rw [List.filter_congr fun m _ => hselects m]
    exact List.flatMap_congr fun m hm => yields_of_mem hr f (List.mem_of_mem_filter hm)
  unfold course reference
  rw [h.terminated, hahead]
  rfl

end Feed

end ObjectFeed
