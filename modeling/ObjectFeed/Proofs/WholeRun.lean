import Mathlib
import ObjectFeed.Feed.Memory
import ObjectFeed.Proofs.Calls

/-!
# Whole runs over stores in memory

A feed that starts over stores in memory of which nothing is told to fail delivers its reference
and then nothing, whatever the page size, the objects that it skips and the calls after the end.

* `Feed.MemoryWorld.Calm`: stores that hold a bucket and do not fail.
* `Feed.load_lt_turnLimit`: a call takes as many turns as it needs.
* `Feed.calls_eq_reference`: **a whole run delivers its reference.**
-/

namespace ObjectFeed.Feed

open MemoryObjects (matching)

/-- The stores hold the objects of a bucket, and nothing is told to fail. -/
structure MemoryWorld.Calm (w : MemoryWorld) (bucket : String) (objects : Dict Body) : Prop where
  stored : w.objects.buckets.get? bucket = some objects
  listFailures : w.objects.listFailures = 0
  queuedListings : w.objects.queued = []
  fetchFailures : w.objects.fetchFailures = ∅
  lookupFailures : w.offsets.failures = 0
  queuedLookups : w.offsets.queued = []

variable {f : Feed} {w : MemoryWorld} {objects : Dict Body} {H : Holdings}

/-- What calm stores hold. -/
def MemoryWorld.holdings (w : MemoryWorld) (objects : Dict Body) : Holdings :=
  ⟨objects, w.offsets.stored?⟩

theorem MemoryWorld.Calm.holds {bucket : String} (h : w.Calm bucket objects) :
    w.Holds bucket (w.holdings objects) := by
  refine ⟨⟨h.stored, fun key kind hk => ?_⟩, rfl, fun e he => ?_⟩
  · rw [h.fetchFailures] at hk
    cases hk
  · rw [h.queuedLookups] at he
    cases he

theorem MemoryWorld.Calm.faults {bucket : String} (h : w.Calm bucket objects) : w.faults = 0 := by
  show max w.objects.listFailures w.objects.queued.length +
    w.objects.fetchFailures.members.length +
      max w.offsets.failures w.offsets.queued.length = 0
  rw [h.listFailures, h.queuedListings, h.fetchFailures, h.lookupFailures, h.queuedLookups]
  rfl

theorem length_unseen_le (f : Feed) (H : Holdings) :
    (f.unseen H).length ≤ H.objects.members.length := by
  unfold unseen matching
  rw [List.length_map]
  exact List.length_filter_le ..

/-- A pull that begins has less to do than eight turns for each object and sixteen more. -/
theorem load_lt (f : Feed) (H : Holdings) :
    f.load H false < 8 * H.objects.members.length + 16 := by
  have hunseen := length_unseen_le f H
  have hlisting := listingLoad_le f.listing
  have hcurrent : (f.current.elim 0 fun _ => 1) ≤ 1 := by
    cases f.current <;> simp
  have hpending : (f.pending.elim 0 fun _ => 2) ≤ 2 := by
    cases f.pending <;> simp
  unfold load
  simp only [Bool.false_eq_true, if_false]
  omega

/-- The turns of a call over stores in memory are more than it needs. -/
theorem load_lt_turnLimit (hw : w.objects.buckets.get? f.lister.bucket = some H.objects) :
    f.load H false < f.turnLimit w := by
  have hload := load_lt f H
  unfold turnLimit
  rw [hw]
  simp only [Option.getD_some]
  omega

theorem next_eq_pull (f : Feed) (w : MemoryWorld) (hw : w.Holds f.lister.bucket H) :
    ∃ limit, f.load H false < limit ∧ f.next w = f.pull limit false w :=
  ⟨f.turnLimit w, load_lt_turnLimit hw.1.1, rfl⟩

/-- A run over calm stores answers all calls. -/
theorem RunOK.answers_eq {out : List (Option (Except Error Delivery)) × Feed × MemoryWorld}
    (h : RunOK H f w out) (hfaults : w.faults = 0) : Feed.answers out.1 = out.1 := by
  have hnone : out.1.countP isRefusal = 0 := by
    have := h.faults
    omega
  refine List.filter_eq_self.2 fun r hr => ?_
  have := List.countP_eq_zero.1 hnone r hr
  simpa using this

/-- A run over stores without failures to come serves the course call by call. -/
theorem calls_of_calm (h : f.StateOK H w.cache) (hw : w.Holds f.lister.bucket H)
    (hfaults : w.faults = 0) (hr : Resumable H.persisted) (n : Nat) :
    (calls next n f w).1 = served (f.course H w.cache).items n ∧
      ((f.course H w.cache).items.length < n →
        (calls next n f w).2.1.finished = { f.course H w.cache with items := [] }) := by
  have hrun := calls_ok next (fun f w => next_eq_pull f w) hr n h hw
  have hanswers := hrun.answers
  have hrest := hrun.rest
  rw [hrun.answers_eq hfaults, length_calls] at hanswers hrest
  refine ⟨hanswers, fun hlt => ?_⟩
  rw [← hrun.finished (by rw [hanswers, getLast?_served hlt]), hrest,
    List.drop_eq_nil_of_le (by omega)]

/-- A run of a fresh feed over stores without failures to come serves its reference. -/
theorem calls_of_fresh (h : f.Fresh) (hw : w.Holds f.lister.bucket H) (hfaults : w.faults = 0)
    (hcache : w.cache = {}) (hr : Resumable H.persisted) (n : Nat) :
    (calls next n f w).1 = served (f.reference H).items n ∧
      ((f.reference H).items.length < n →
        (calls next n f w).2.1.finished = { f.reference H with items := [] }) := by
  have hstate : f.StateOK H w.cache := by
    rw [hcache]
    exact stateOK_fresh h H
  have hrun := calls_of_calm hstate hw hfaults hr n
  rw [hcache, course_fresh h hr] at hrun
  exact hrun

/-- A run of a feed that starts over calm stores serves its reference. -/
theorem calls_of_start {d : Directories} {c : FeedConfig} {failed : KeySet}
    (hf : start d c failed = .ok f) (hw : w.Calm c.bucket objects) (hcache : w.cache = {})
    (hr : Resumable w.offsets.stored?) (n : Nat) :
    (calls next n f w).1 = served (f.reference (w.holdings objects)).items n ∧
      ((f.reference (w.holdings objects)).items.length < n →
        (calls next n f w).2.1.finished =
          { f.reference (w.holdings objects) with items := [] }) := by
  have hholds : w.Holds f.lister.bucket (w.holdings objects) := by
    rw [bucket_start hf]
    exact hw.holds
  exact calls_of_fresh (fresh_start hf) hholds hw.faults hcache hr n

/-- **A whole run delivers its reference**, one item for each call, and then nothing. After the last
item the failed keys are those of the reference, and the feed has stopped if the reference does. -/
theorem calls_eq_reference {d : Directories} {c : FeedConfig} {failed : KeySet}
    (hf : start d c failed = .ok f) (hw : w.Calm c.bucket objects) (hcache : w.cache = {})
    (hr : Resumable w.offsets.stored?) (n : Nat) :
    let course := f.reference ⟨objects, w.offsets.stored?⟩
    (calls next n f w).1 = (List.range n).map (fun i => course.items[i]?) ∧
      (course.items.length < n →
        (calls next n f w).2.1.filter.failed = course.failed ∧
        (calls next n f w).2.1.terminated = course.terminated) := by
  obtain ⟨hitems, hlast⟩ := calls_of_start hf hw hcache hr n
  refine ⟨hitems, fun hlt => ?_⟩
  have hfinished := hlast hlt
  exact ⟨congrArg Course.failed hfinished, congrArg Course.terminated hfinished⟩

/-- A worker that reads chunks of two bytes and skips malformed objects. -/
def sampleConfig : FeedConfig :=
  { bucket := "store", fetchPageSize := 1, decoder := { chunkSize := 2 }, tolerance := .all,
    template := "\x7b\x7btopic\x7d\x7d" }

def sampleFeed : Feed :=
  { settings := .bytes 2
    template :=
      ⟨"\x7b\x7btopic\x7d\x7d", [.literal [], .field .topic, .literal []]⟩
    topic := none
    tolerance := .all
    maxPollRecords := 500
    lister := ⟨"store", none, 2⟩
    filter := { assignment := ⟨0, 1⟩ } }

theorem start_sampleConfig : start ⟨[], [], ""⟩ sampleConfig ∅ = .ok sampleFeed :=
  start_eq_ok_iff.2 ⟨_, .bytes 2, by cbv, by rfl, by rfl⟩

/-- Two chunks, one chunk, a chunk before a failing read, and an empty object. -/
def sampleObjects : Dict Body :=
  ⟨[("a", [.data [1, 2, 3]]), ("b", [.data [4]]), ("c", [.data [7, 8], .failed "reset"]),
    ("d", [])], by decide⟩

def sampleWorld : MemoryWorld :=
  { objects := { buckets := .ofList [("store", sampleObjects)] }, offsets := {} }

theorem calm_sampleWorld : sampleWorld.Calm "store" sampleObjects :=
  ⟨by rfl, rfl, rfl, rfl, rfl, rfl⟩

theorem resumable_sampleWorld : Resumable sampleWorld.offsets.stored? := by
  rintro k p ⟨⟩

/-- The first chunk of the first object has been delivered before. -/
def sampleProgress : Offset := { key := ⟨"store", "a", none, "a"⟩, count := 1 }

theorem calls_eq_reference_sample :
    let w := { sampleWorld with
      offsets := sampleWorld.offsets.put sampleProgress.key.properties sampleProgress.properties }
    let course := sampleFeed.reference ⟨sampleObjects, w.offsets.stored?⟩
    (calls next 3 sampleFeed w).1 = (List.range 3).map (fun i => course.items[i]?) ∧
      (course.items.length < 3 →
        (calls next 3 sampleFeed w).2.1.filter.failed = course.failed ∧
        (calls next 3 sampleFeed w).2.1.terminated = course.terminated) :=
  calls_eq_reference start_sampleConfig ⟨by rfl, rfl, rfl, rfl, rfl, rfl⟩ rfl
    (resumable_sampleWorld.put (o := sampleProgress) (fun _ _ => rfl) (by decide)) 3

end ObjectFeed.Feed
