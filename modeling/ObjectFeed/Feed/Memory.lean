import ObjectFeed.Feed
import ObjectFeed.Store.Memory

/-!
# Feeds over stores in memory

Over stores in memory the turns of a pull are bounded by the number of objects: each of them is
listed, taken up and read at most once by a listing that is open and once by a fresh one.

* `Feed.next`: the next record, error, or nothing.
* `Feed.nextBatch`: a batch of at most a number of records.
-/

namespace ObjectFeed.Feed

/-- Stores in memory and an offset cache. -/
abbrev MemoryWorld := World MemoryObjects MemoryOffsets

/-- More turns than a pull takes. -/
def turnLimit (f : Feed) (w : MemoryWorld) : Nat :=
  let stored := ((w.objects.buckets.get? f.lister.bucket).getD ∅).members.length
  let buffered := (f.listing.map fun l => l.buffer.length).getD 0
  8 * (stored + buffered) + 16

/-- The next record or error, or nothing if there is nothing new. -/
def next (f : Feed) (w : MemoryWorld) : Option (Except Error Delivery) × Feed × MemoryWorld :=
  f.pull (f.turnLimit w) false w

/-- A batch of up to `n` records. An error after some records is held back for the next call. -/
def nextBatch (n : Nat) (f : Feed) (w : MemoryWorld) :
    Except Error (List Delivery) × Feed × MemoryWorld :=
  f.poll (f.turnLimit w) n w

end ObjectFeed.Feed
