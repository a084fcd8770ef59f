import ObjectFeed.Proofs.Frame
import ObjectFeed.Proofs.Growth

/-!
# The ledger of a feed

Which objects a feed has fetched, and which records it has delivered of each. Objects are fetched in
the order in which they are listed, each of them at most once, and the records of one come before
those of the next.

* `Feed.eligible`: an object that a feed takes up when it is listed.
* `RecordStream.unfetched`: the object that a stream is about to fetch.
* `RecordStream.fetched_next`: what a call changes of a store that does not fail on purpose.
* `Ledger`: **the objects that have been fetched are the eligible ones among those listed**, up to
  the one that has been taken up last.
-/

namespace ObjectFeed

/-- The key that the stream is about to fetch. -/
def RecordStream.unfetched (s : RecordStream) : List String :=
  match s.state with
  | .pending => [s.objectKey]
  | _ => []

theorem RecordStream.unfetched_of_pending {s : RecordStream} (h : s.state = .pending) :
    s.unfetched = [s.objectKey] := by
  unfold unfetched
  rw [h]

theorem RecordStream.unfetched_of_ne {s : RecordStream} (h : s.state ≠ .pending) :
    s.unfetched = [] := by
  unfold unfetched
  split
  · rename_i hpending
    exact absurd hpending h
  · rfl

/-- A fetch that is not told to fail is logged, and fails only for want of an object. -/
theorem MemoryObjects.fetch_quiet {s : MemoryObjects} (h : s.fetchFailures = ∅)
    (bucket key : String) :
    (∃ opened, (ObjectStore.fetch s bucket key).2 =
      { s with fetchLog := s.fetchLog ++ [key], opened }) ∧
      ∀ e, (ObjectStore.fetch s bucket key).1 = .error e → e.isTransient = false := by
  have hnone : s.fetchFailures.get? key = none := by rw [h, Dict.get?_empty]
  simp only [ObjectStore.fetch, fetch, hnone]
  split
  · exact ⟨⟨s.opened + 1, rfl⟩, by simp⟩
  · refine ⟨⟨s.opened, rfl⟩, ?_⟩
    rintro e ⟨⟩
    rfl

/-- The store after some fetches, with the numbers of bodies that were handed out and taken back. -/
def Recorded.Fetched (s : Recorded MemoryObjects) (keys : List String)
    (s' : Recorded MemoryObjects) : Prop :=
  ∃ opened closed, s' =
    { s with store := { s.store with fetchLog := s.store.fetchLog ++ keys, opened, closed } }

namespace RecordStream

variable {s : Recorded MemoryObjects}

theorem fetched_release {keys : List String} (s' : Recorded MemoryObjects)
    (h : s.Fetched keys s') : s.Fetched keys (ObjectStore.release s') := by
  obtain ⟨opened, closed, rfl⟩ := h
  exact ⟨opened, closed + 1, rfl⟩

/-- A call of a stream changes a store by no more than a fetch of its object. -/
theorem fetched_next (x : RecordStream) (h : s.store.fetchFailures = ∅) :
    s.Fetched x.unfetched (x.next s).2.2 := by
  refine next_keeps fetched_release x ?_ ?_
  · intro hstate
    exact ⟨s.store.opened, s.store.closed, by rw [unfetched_of_ne hstate, List.append_nil]⟩
  · intro hstate
    obtain ⟨opened, hfetch⟩ := (MemoryObjects.fetch_quiet h x.bucket x.objectKey).1
    refine ⟨opened, s.store.closed, ?_⟩
    rw [Recorded.fetch_eq, hfetch, unfetched_of_pending hstate]

/-- A failure of the store is not worth another fetch. -/
theorem isTransient_of_next {x x' : RecordStream} {s' : Recorded MemoryObjects} {e : StoreError}
    (h : s.store.fetchFailures = ∅) (hn : x.next s = (some (.error (.store e)), x', s')) :
    e.isTransient = false := by
  obtain ⟨store, hfetch⟩ := fetch_of_next hn
  rw [Recorded.fetch_eq] at hfetch
  exact (MemoryObjects.fetch_quiet h x.bucket x.objectKey).2 e (congrArg Prod.fst hfetch)

end RecordStream

namespace Feed

/-- The feed takes the object up when it is listed: its filter accepts it, and its key has an
identity. -/
def eligible (f : Feed) (s : Summary) : Bool := f.filter.accepts s && (f.identify s.key).isSome

/-- The objects that are taken up in the order in which they are listed. -/
def taken (f : Feed) (seen : List Summary) : List String := (seen.filter f.eligible).map (·.key)

theorem taken_concat (f : Feed) (seen : List Summary) (s : Summary) :
    f.taken (seen ++ [s]) = f.taken seen ++ if f.eligible s then [s.key] else [] := by
  unfold taken
  rw [List.filter_append, List.map_append]
  split <;> simp_all

end Feed

open Feed (taken keyData)

/-- The records that were delivered of each object that was fetched, and the state that belongs to
that: the objects are those that were taken up, apart from the one that is yet to be fetched, and
the one that is being read is the last of them. -/
structure Ledger (f : Feed) (seen : List Summary) (groups : List (String × List Delivery))
    (current : Option InFlight) (terminated : Bool) (failed : KeySet) : Prop where
  keys : ∀ g ∈ groups, ∀ d ∈ g.2, d.key = keyData g.1
  fetched : groups.map (·.1) <+: f.taken seen
  complete : terminated = false →
    f.taken seen = groups.map (·.1) ++ current.elim [] fun x => x.stream.unfetched
  current : ∀ x, current = some x → x.stream.objectKey = x.summary.key ∧
    (x.stream.state ≠ .pending → ∃ front ds, groups = front ++ [(x.summary.key, ds)])
  failed : ∀ key, (∀ s ∈ seen, s.key ≠ key) → failed.contains key = f.filter.failed.contains key

namespace Ledger

variable {f : Feed} {seen : List Summary} {groups : List (String × List Delivery)}
variable {current : Option InFlight} {terminated : Bool} {failed : KeySet}
variable {s : Summary} {x : InFlight} {stream : RecordStream}

/-- An object that is not eligible is passed over. -/
theorem pass (h : Ledger f seen groups none terminated failed) (hs : f.eligible s = false) :
    Ledger f (seen ++ [s]) groups none terminated failed := by
  have htaken : f.taken (seen ++ [s]) = f.taken seen := by
    rw [Feed.taken_concat, hs]
    simp
  refine ⟨h.keys, htaken ▸ h.fetched, ?_, h.current, fun key hkey => ?_⟩
  · rw [htaken]
    exact h.complete
  · exact h.failed key fun t ht => hkey t (List.mem_append_left _ ht)

/-- An object that is eligible is to be fetched next. -/
theorem take (h : Ledger f seen groups none false failed) (hs : f.eligible s = true)
    (hstate : stream.state = .pending) (hkey : stream.objectKey = s.key) :
    Ledger f (seen ++ [s]) groups (some ⟨s, stream⟩) false failed := by
  have htaken : f.taken (seen ++ [s]) = groups.map (·.1) ++ [s.key] := by
    rw [Feed.taken_concat, hs, h.complete rfl]
    simp
  refine ⟨h.keys, htaken ▸ List.prefix_append .., fun _ => ?_, ?_, fun key hk => ?_⟩
  · rw [htaken, Option.elim_some, RecordStream.unfetched_of_pending hstate, hkey]
  · rintro x ⟨⟩
    exact ⟨hkey, fun hne => absurd hstate hne⟩
  · exact h.failed key fun t ht => hk t (List.mem_append_left _ ht)

/-- A feed that ends has fetched what it has. -/
theorem stop (h : Ledger f seen groups current terminated failed) :
    Ledger f seen groups none true failed :=
  ⟨h.keys, h.fetched, by simp, by simp, h.failed⟩

/-- A feed that ends with an object that was listed has not fetched it. -/
theorem stop_concat (h : Ledger f seen groups current terminated failed) (s : Summary) :
    Ledger f (seen ++ [s]) groups none true failed := by
  refine ⟨h.keys, h.fetched.trans ?_, by simp, by simp, fun key hk => ?_⟩
  · rw [Feed.taken_concat]
    exact List.prefix_append ..
  · exact h.failed key fun t ht => hk t (List.mem_append_left _ ht)

/-- After a call of its stream the current object has been fetched. -/
theorem fetch (h : Ledger f seen groups (some x) false failed)
    (hstate : stream.state ≠ .pending) (hkey : stream.objectKey = x.stream.objectKey) :
    ∃ groups', groups'.map (·.1) = groups.map (·.1) ++ x.stream.unfetched ∧
      groups'.flatMap (·.2) = groups.flatMap (·.2) ∧
      Ledger f seen groups' (some { x with stream }) false failed := by
  obtain ⟨hobject, hlast⟩ := h.current x rfl
  have hnone := RecordStream.unfetched_of_ne hstate
  -- only the first call of a stream fetches its object
  by_cases hx : x.stream.state = .pending
  · have hunfetched : x.stream.unfetched = [x.summary.key] := by
      rw [RecordStream.unfetched_of_pending hx, hobject]
    have hcomplete := h.complete rfl
    rw [Option.elim_some, hunfetched] at hcomplete
    refine ⟨groups ++ [(x.summary.key, [])], by simp [hunfetched], by simp, ?_, ?_, ?_, ?_,
      h.failed⟩
    · intro g hg d hd
      rcases List.mem_append.1 hg with hg | hg
      · exact h.keys g hg d hd
      · rw [List.mem_singleton.1 hg] at hd
        simp at hd
    · rw [hcomplete]
      simp
    · intro _
      rw [hcomplete, Option.elim_some, hnone]
      simp
    · rintro y ⟨⟩
      exact ⟨hkey.trans hobject, fun _ => ⟨groups, [], rfl⟩⟩
  · have hunfetched := RecordStream.unfetched_of_ne hx
    refine ⟨groups, by simp [hunfetched], rfl, h.keys, h.fetched, ?_, ?_, h.failed⟩
    · intro _
      rw [h.complete rfl, Option.elim_some, Option.elim_some, hunfetched, hnone]
    · rintro y ⟨⟩
      exact ⟨hkey.trans hobject, fun _ => hlast hx⟩

/-- A record of the current object is the last one of the last object. -/
theorem deliver (h : Ledger f seen groups (some x) false failed)
    (hstate : x.stream.state ≠ .pending) {d : Delivery} (hd : d.key = keyData x.summary.key) :
    ∃ groups', groups'.map (·.1) = groups.map (·.1) ∧
      groups'.flatMap (·.2) = groups.flatMap (·.2) ++ [d] ∧
      Ledger f seen groups' (some x) false failed := by
  obtain ⟨hobject, hlast⟩ := h.current x rfl
  obtain ⟨front, ds, rfl⟩ := hlast hstate
  have hmap : (front ++ [(x.summary.key, ds ++ [d])]).map (·.1) =
      (front ++ [(x.summary.key, ds)]).map (·.1) := by simp
  refine ⟨front ++ [(x.summary.key, ds ++ [d])], hmap, by simp, ?_, hmap ▸ h.fetched, ?_, ?_,
    h.failed⟩
  · intro g hg e he
    rcases List.mem_append.1 hg with hg | hg
    · exact h.keys g (List.mem_append_left _ hg) e he
    · obtain rfl := List.mem_singleton.1 hg
      rcases List.mem_append.1 he with he | he
      · exact h.keys (x.summary.key, ds) (by simp) e he
      · rw [List.mem_singleton.1 he]
        exact hd
  · rw [hmap]
    exact h.complete
  · rintro y ⟨⟩
    exact ⟨hobject, fun _ => ⟨front, _, rfl⟩⟩

/-- An object that has been fetched can be given up. -/
theorem drop (h : Ledger f seen groups (some x) false failed)
    (hstate : x.stream.state ≠ .pending) : Ledger f seen groups none false failed := by
  refine ⟨h.keys, h.fetched, fun _ => ?_, by simp, h.failed⟩
  have hcomplete := h.complete rfl
  rw [Option.elim_some, RecordStream.unfetched_of_ne hstate] at hcomplete
  exact hcomplete

/-- The current object has been listed, so it may be marked as failed. -/
theorem markFailed (h : Ledger f seen groups (some x) false failed)
    (hstate : x.stream.state ≠ .pending) :
    Ledger f seen groups none false (failed.insert x.summary.key ()) := by
  have hdrop := h.drop hstate
  refine ⟨hdrop.keys, hdrop.fetched, hdrop.complete, hdrop.current, fun key hkey => ?_⟩
  -- an object that has been fetched was listed before
  obtain ⟨front, ds, hgroups⟩ := (h.current x rfl).2 hstate
  have hmem : x.summary.key ∈ f.taken seen := by
    refine h.fetched.subset ?_
    rw [hgroups]
    simp
  obtain ⟨s, hs, hsk⟩ := List.mem_map.1 hmem
  have hne : key ≠ x.summary.key := by
    rintro rfl
    exact hkey s (List.mem_filter.1 hs).1 hsk
  rw [← h.failed key hkey]
  simp only [Dict.contains, Dict.get?_insert, if_neg hne]

end Ledger

end ObjectFeed
