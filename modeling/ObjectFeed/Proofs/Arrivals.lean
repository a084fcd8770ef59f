import ObjectFeed.Proofs.Closing
import ObjectFeed.Proofs.Ledger
import ObjectFeed.Proofs.Workers

/-!
# Arrivals

Objects may arrive in the bucket between the calls of a feed, under new keys or in place of others.
The feed fetches each object once and in key order, and when it has nothing to deliver, it has
fetched all that arrived after the last key that was listed then.

* `Feed.arrive`: the outcomes of calls between which objects arrive.
* `Feed.History`: what a feed has listed, fetched and delivered, and what it is about to.
* `Feed.turn_going`: **each turn of a call keeps the history**.
* `Feed.history_next`, `Feed.history_arrive`: and so do calls, and runs of calls and arrivals.
* `Feed.arrivals_complete`: **the order and the completeness of a run.**
-/

namespace ObjectFeed

open MemoryObjects (isAfter matching startsWith)

/-- A look-up fails for what it finds only, if the store does not fail on purpose. -/
theorem OffsetCache.get_quiet {t : MemoryOffsets} (hf : t.failures = 0) (hq : t.queued = [])
    (c : OffsetCache) (k : OffsetKey) :
    ((c.get t k).2.2.failures = 0 ∧ (c.get t k).2.2.queued = []) ∧
      ∀ e, (c.get t k).1 ≠ .error (.store e) := by
  have hread : ∀ (p : Properties) (e : StoreError),
      (Offset.ofProperties p).mapError Error.offset ≠ .error (.store e) := by
    intro p e
    cases Offset.ofProperties p <;> simp [Except.mapError]
  cases hslot : c.slot? k with
  | some p =>
    rw [get_of_known hslot]
    exact ⟨⟨hf, hq⟩, hread p⟩
  | none =>
    rcases MemoryOffsets.lookup_cases t k with ⟨-, -, hl⟩ | ⟨hfails, -⟩
    · rw [get_of_found hslot hl]
      exact ⟨⟨hf, hq⟩, hread _⟩
    · exact absurd hfails (by simp [hf, hq])

namespace Feed

/-- A world in memory that keeps its listings. -/
abbrev RecordedWorld := World (Recorded MemoryObjects) MemoryOffsets

/-- The world with the listings to come recorded. -/
def MemoryWorld.recorded (w : MemoryWorld) : RecordedWorld :=
  { objects := ⟨w.objects, []⟩, offsets := w.offsets, cache := w.cache }

/-- What happens to a feed and its bucket: a call, or the arrival of an object. -/
inductive Move where
  | next
  | put (bucket key : String) (body : Body)

/-- The outcomes of calls between which objects arrive. -/
def arrive {σ τ : Type}
    (next : Feed → World σ τ → Option (Except Error Delivery) × Feed × World σ τ)
    (put : σ → (bucket key : String) → Body → σ) :
    List Move → Feed → World σ τ → List (Option (Except Error Delivery)) × Feed × World σ τ
  | [], f, w => ([], f, w)
  | .next :: moves, f, w =>
    match next f w with
    | (r, f, w) =>
      match arrive next put moves f w with
      | (rs, f, w) => (r :: rs, f, w)
  | .put bucket key body :: moves, f, w =>
    arrive next put moves f { w with objects := put w.objects bucket key body }

theorem arrive_append {σ τ : Type}
    (next : Feed → World σ τ → Option (Except Error Delivery) × Feed × World σ τ)
    (put : σ → (bucket key : String) → Body → σ) (before after : List Move) (f : Feed)
    (w : World σ τ) :
    arrive next put (before ++ after) f w =
      ((arrive next put before f w).1 ++
          (arrive next put after (arrive next put before f w).2.1
            (arrive next put before f w).2.2).1,
        (arrive next put after (arrive next put before f w).2.1
          (arrive next put before f w).2.2).2) := by
  induction before generalizing f w with
  | nil => simp [arrive]
  | cons move before ih =>
    cases move with
    | next =>
      rw [List.cons_append]
      simp only [arrive, ih, List.cons_append]
    | put bucket key body => exact ih _ _

/-- The next record or error, or nothing, over a world that keeps its listings. -/
def nextRecorded (f : Feed) (w : RecordedWorld) :
    Option (Except Error Delivery) × Feed × RecordedWorld :=
  f.pull (f.turnLimit w.plain) false w

/-- Recording changes nothing of what calls deliver. -/
theorem arrive_plain (moves : List Move) (f : Feed) (w : RecordedWorld) :
    arrive next MemoryObjects.put moves f w.plain =
      ((arrive nextRecorded Recorded.put moves f w).1,
        (arrive nextRecorded Recorded.put moves f w).2.1,
        (arrive nextRecorded Recorded.put moves f w).2.2.plain) := by
  induction moves generalizing f w with
  | nil => rfl
  | cons move moves ih =>
    cases move with
    | next =>
      have hnext : f.next w.plain = ((f.nextRecorded w).1, (f.nextRecorded w).2.1,
          (f.nextRecorded w).2.2.plain) := pull_plain ..
      simp only [arrive, hnext, ih]
    | put bucket key body => exact ih f { w with objects := w.objects.put bucket key body }

/-- What a feed has listed, fetched and delivered since it started, over stores that do not fail on
purpose: the pages, the fetches after those before it, and the records of each object. -/
structure History (f₀ : Feed) (before : List String) (seen : List Summary)
    (groups : List (String × List Delivery)) (f : Feed) (w : RecordedWorld) : Prop where
  setup : f.setup = f₀.setup
  pending : f.pending = none
  catalogue : Catalogue f₀.lister seen f.listing f.lastKey w.objects
  ledger : Ledger f₀ seen groups f.current f.terminated f.filter.failed
  log : w.objects.store.fetchLog = before ++ groups.map (·.1)
  listings : w.objects.store.listFailures = 0 ∧ w.objects.store.queued = []
  fetches : w.objects.store.fetchFailures = ∅
  lookups : w.offsets.failures = 0 ∧ w.offsets.queued = []

/-- What the bucket of the feed holds. -/
def stock (f₀ : Feed) (w : RecordedWorld) : Holdings :=
  ⟨w.objects.store.stock f₀.lister.bucket, fun _ => none⟩

variable {f₀ f : Feed} {before : List String} {seen : List Summary}
variable {groups : List (String × List Delivery)} {w : RecordedWorld}

namespace History

/-- Of an object that is listed for the first time the filter knows what it knew at the start. -/
theorem eligible_eq (h : History f₀ before seen groups f w) {x : Summary}
    (hx : ∀ y ∈ seen, y.key < x.key) :
    f₀.eligible x = (f.filter.accepts x && (f.identify x.key).isSome) := by
  have hfailed := h.ledger.failed x.key fun y hy => String.ne_of_lt (hx y hy)
  unfold eligible TaskFilter.accepts
  rw [hfailed, assignment_congr h.setup, identify_congr h.setup]

/-- An object that is listed is no longer among those to come. -/
theorem load_lt (h : History f₀ before seen groups f w) {x : Summary}
    (hmem : x ∈ w.objects.listed) (hx : ∀ y ∈ seen, y.key < x.key) {g : Feed}
    (hs : g.setup = f.setup) (hp : g.pending = none) (hk : g.lastKey = some x.key)
    (listed listed' : Bool) :
    g.load (f₀.stock w) listed' < f.load (f₀.stock w) listed := by
  obtain ⟨hstart, body, hbody⟩ := h.catalogue.stored x hmem
  have hunseen : (g.unseen (f₀.stock w)).length < (f.unseen (f₀.stock w)).length := by
    unfold unseen
    rw [hk, h.catalogue.lastKey, lister_congr (hs.trans h.setup), lister_congr h.setup]
    exact MemoryObjects.length_matching_lt hbody hstart (isAfter_frontier hx)
  have hlisting := listingLoad_le g.listing
  have hcurrent : (g.current.elim 0 fun _ => 1) ≤ 1 := by cases g.current <;> simp
  have hfresh : (if listed' then 0 else 4) ≤ 4 := by split <;> omega
  unfold load
  rw [hp, Option.elim_none]
  omega

/-- A call of its stream fetches the current object, if it has not been fetched before. -/
theorem read (h : History f₀ before seen groups f w) (ht : f.terminated = false) {x : InFlight}
    (hx : f.current = some x) {stream : RecordStream} (hstate : stream.state ≠ .pending)
    (hkey : stream.objectKey = x.stream.objectKey) :
    ∃ groups', groups'.flatMap (·.2) = groups.flatMap (·.2) ∧
      Ledger f₀ seen groups' (some { x with stream }) false f.filter.failed ∧
      w.objects.store.fetchLog ++ x.stream.unfetched = before ++ groups'.map (·.1) := by
  have hledger := h.ledger
  rw [ht, hx] at hledger
  obtain ⟨groups', hmap, hflat, hledger'⟩ := hledger.fetch hstate hkey
  refine ⟨groups', hflat, hledger', ?_⟩
  rw [h.log, hmap, List.append_assoc]

/-- The history after a call of a stream is that of the ledger. -/
theorem settle (h : History f₀ before seen groups f w) {objects : Recorded MemoryObjects}
    {keys : List String} (hobjects : w.objects.Fetched keys objects)
    {groups' : List (String × List Delivery)} {current : Option InFlight} {terminated : Bool}
    {failed : KeySet} (hledger : Ledger f₀ seen groups' current terminated failed)
    (hlog : w.objects.store.fetchLog ++ keys = before ++ groups'.map (·.1))
    {cache : OffsetCache} :
    History f₀ before seen groups'
      { f with current, terminated, filter := { f.filter with failed } }
      { w with objects, cache } := by
  obtain ⟨opened, closed, rfl⟩ := hobjects
  exact ⟨h.setup, h.pending, h.catalogue.congr rfl rfl, hledger, hlog, h.listings, h.fetches,
    h.lookups⟩

end History

section Call

variable (f₀ : Feed) (before : List String) (start : Recorded MemoryObjects)
variable (records : List Delivery)

/-- A call that began with the store `start` and after some records, and has delivered the `new`
ones, if any: it keeps the history, and no key is lost that was awaited. -/
def Underway (new : List Delivery) (f : Feed) (w : RecordedWorld) : Prop :=
  ∃ seen groups, History f₀ before seen groups f w ∧ groups.flatMap (·.2) = records ++ new ∧
    ∀ key, start.Awaits f₀.lister key → w.objects.Awaits f₀.lister key

/-- A call in its course, with some turns left that are more than it needs. The end of a listing
that it has begun means that there is nothing new. -/
def Going (limit : Nat) (listed : Bool) (f : Feed) (w : RecordedWorld) : Prop :=
  f₀.Underway before start records [] f w ∧ f.load (f₀.stock w) listed < limit ∧
    (listed = true → f.current = none ∧
      (∀ l, f.listing = some l → l.done = true → w.objects.Exhausted f₀.lister) ∧
      (f.listing = none → w.objects.Exhausted f₀.lister))

/-- A call that is over. If it has delivered nothing and the feed has not ended, there is nothing
new. -/
def Over (r : Option (Except Error Delivery)) (f : Feed) (w : RecordedWorld) : Prop :=
  f₀.Underway before start records (recordsOf [r]) f w ∧
    (r = none → f.terminated = false →
      f.current = none ∧ f.listing = none ∧ w.objects.Exhausted f₀.lister)

variable {f₀ before start records} {limit : Nat} {listed : Bool}

theorem over_some {r : Except Error Delivery}
    (h : f₀.Underway before start records (recordsOf [some r]) f w) :
    f₀.Over before start records (some r) f w :=
  ⟨h, nofun⟩

/-- A turn without an outcome that has not begun a listing. -/
theorem going_false (h : f₀.Underway before start records [] f w)
    (hload : f.load (f₀.stock w) false < limit) :
    f₀.Going before start records limit false f w :=
  ⟨h, hload, nofun⟩

/-- The stream of the current object is moved on. -/
theorem advance_going (h : f₀.Going before start records (limit + 1) listed f w)
    (ht : f.terminated = false) {x : InFlight} (hx : f.current = some x) :
    (f.advance x w).Leads (f₀.Going before start records limit)
      (f₀.Over before start records) := by
  obtain ⟨⟨seen, groups, h, hrecords, hawaits⟩, hload, hlisted⟩ := h
  have hnot : listed = false := by
    cases listed with
    | false => rfl
    | true => simpa [hx] using (hlisted rfl).1
  rw [hnot] at hload
  have hfetched := RecordStream.fetched_next (s := w.objects) x.stream h.fetches
  obtain ⟨hstate, hkey⟩ := x.stream.state_next w.objects
  obtain ⟨groups', hflat, hledger, hlog⟩ := h.read ht hx hstate hkey
  -- what is awaited, and what is to come, depends on the keys that are stored and listed only
  have hkept : ∀ {objects : Recorded MemoryObjects}, w.objects.Fetched x.stream.unfetched objects →
      (∀ key, start.Awaits f₀.lister key → objects.Awaits f₀.lister key) ∧
      ∀ filter cache, { f with current := none, filter }.load
        (f₀.stock { w with objects, cache }) false < limit := by
    rintro _ ⟨opened, closed, rfl⟩
    refine ⟨fun key hk => (hawaits key hk).congr rfl rfl, fun filter cache => ?_⟩
    have hfall := load_given_up (f := f) (H := f₀.stock w) hx filter
    show { f with current := none, filter }.load (f₀.stock w) false < limit
    omega
  have hdrop := hledger.drop hstate
  rw [← ht] at hdrop
  refine advance_leads ?_ ?_ ?_
  · intro r stream objects hnext
    rw [hnext] at hfetched hstate hledger
    obtain ⟨groups'', hmap, hflat', hledger'⟩ := hledger.deliver hstate
      (d := Feed.deliver { x with stream } r) rfl
    refine over_some ⟨seen, groups'', ?_, ?_, (hkept hfetched).1⟩
    · rw [← ht] at hledger'
      exact h.settle hfetched hledger' (hmap ▸ hlog)
    · rw [hflat', hflat, hrecords, List.append_nil]
      rfl
  · intro e stream objects hnext
    rw [hnext] at hfetched hstate hledger
    have hfetched' := RecordStream.giveBack_keeps RecordStream.fetched_release stream.state hfetched
    obtain ⟨hawaits', hload'⟩ := hkept hfetched'
    refine afterStreamError_leads ?_ ?_ ?_
    · rintro e rfl
      have hnot := RecordStream.isTransient_of_next h.fetches hnext
      unfold afterStoreError
      rw [hnot]
      exact over_some ⟨seen, groups', h.settle hfetched' hdrop hlog,
        hflat.trans hrecords, hawaits'⟩
    · intro hstore htol
      exact over_some ⟨seen, groups', h.settle hfetched' hdrop.stop hlog,
        hflat.trans hrecords, hawaits'⟩
    · intro hstore htol
      have hledger' := hledger.markFailed hstate
      rw [← ht] at hledger'
      exact going_false ⟨seen, groups', h.settle hfetched' hledger' hlog,
        hflat.trans hrecords, hawaits'⟩ (hload' ..)
  · intro stream objects hnext
    rw [hnext] at hfetched
    obtain ⟨hawaits', hload'⟩ := hkept hfetched
    exact going_false ⟨seen, groups', h.settle hfetched hdrop hlog,
      hflat.trans hrecords, hawaits'⟩ (hload' ..)

section Search

variable {l : Listing} {x : Summary} {l' : Listing}

/-- An object that has been listed and accepted is taken up, unless it has no identity. -/
theorem take_going (h : History f₀ before seen groups f w) (ht : f.terminated = false)
    (hx : f.current = none) (hrecords : groups.flatMap (·.2) = records ++ [])
    (hawaits : ∀ key, start.Awaits f₀.lister key → w.objects.Awaits f₀.lister key)
    (hload : f.load (f₀.stock w) listed < limit + 1) (hmem : x ∈ w.objects.listed)
    (hbehind : ∀ y ∈ seen, y.key < x.key) (hacc : f.filter.accepts x = true)
    (hcatalogue : Catalogue f₀.lister (seen ++ [x]) (some l') (some x.key) w.objects) :
    ({ f with listing := some l', lastKey := some x.key }.take x w).Leads
      (f₀.Going before start records limit) (f₀.Over before start records) := by
  have heligible := h.eligible_eq hbehind
  rw [hacc, Bool.true_and] at heligible
  have hledger := h.ledger
  rw [hx] at hledger
  -- a look-up can fail for what it finds, but not for the store
  have hquiet := fun k => w.cache.get_quiet h.lookups.1 h.lookups.2 k
  refine take_leads ?_ ?_ ?_ ?_
  · intro hidentity
    have hpass : Ledger f₀ (seen ++ [x]) groups none f.terminated f.filter.failed :=
      hledger.pass (heligible.trans (by rw [show f.identify x.key = none from hidentity]; rfl))
    rw [← hx] at hpass
    have hfall := h.load_lt hmem hbehind
      (g := { f with listing := some l', lastKey := some x.key }) rfl h.pending rfl listed false
    refine going_false ⟨seen ++ [x], groups, ⟨h.setup, h.pending, hcatalogue, hpass, h.log,
      h.listings, h.fetches, h.lookups⟩, hrecords, hawaits⟩ ?_
    exact Nat.lt_of_lt_of_le hfall (Nat.le_of_lt_succ hload)
  · intro k o cache offsets hidentity hget
    have hlookups := (hquiet k).1
    rw [hget] at hlookups
    let stream := RecordStream.start f.settings f.lister.bucket x.key o
    rw [ht] at hledger
    have htake : Ledger f₀ (seen ++ [x]) groups (some ⟨x, stream⟩) false f.filter.failed :=
      hledger.take (heligible.trans (by rw [show f.identify x.key = some k from hidentity]; rfl))
        rfl rfl
    rw [← ht] at htake
    let g : Feed := { f with
      listing := some l', lastKey := some x.key, current := some ⟨x, stream⟩ }
    have hfall := h.load_lt hmem hbehind (g := g) rfl h.pending rfl listed false
    refine going_false ⟨seen ++ [x], groups, ⟨h.setup, h.pending, hcatalogue, htake, h.log,
      h.listings, h.fetches, hlookups⟩, hrecords, hawaits⟩ ?_
    exact Nat.lt_of_lt_of_le hfall (Nat.le_of_lt_succ hload)
  · intro k e cache offsets _ hget
    exact absurd (congrArg Prod.fst hget) ((hquiet k).2 e)
  · intro k e cache offsets _ hget
    have hlookups := (hquiet k).1
    rw [hget] at hlookups
    have hstop := hledger.stop_concat x
    rw [← hx] at hstop
    exact over_some ⟨seen ++ [x], groups, ⟨h.setup, h.pending, hcatalogue, hstop, h.log,
      h.listings, h.fetches, hlookups⟩, hrecords, hawaits⟩

/-- The listing is moved on. -/
theorem search_going (h : f₀.Going before start records (limit + 1) listed f w)
    (ht : f.terminated = false) (hx : f.current = none) (hl : f.listing = some l) :
    (f.search l listed w).Leads (f₀.Going before start records limit)
      (f₀.Over before start records) := by
  obtain ⟨⟨seen, groups, h, hrecords, hawaits⟩, hload, hlisted⟩ := h
  have hcatalogue := h.catalogue
  rw [hl] at hcatalogue
  have hbefore := load_of_idle (H := f₀.stock w) hx h.pending listed
  rw [hl] at hbefore
  unfold search
  rcases hcatalogue.step_cases h.listings.1 h.listings.2 with
    ⟨x, l', hstep, hbehind, hmem, hcatalogue', hdone⟩ | ⟨hstep, hcatalogue', hdone⟩ |
    ⟨l', _, hstep, hb, hd, hcatalogue', hmore, hdone, hprogress, log, exchanges, rfl⟩ |
    ⟨e, l', _, hstep, hcatalogue', hmore, log, exchanges, rfl⟩
  · simp only [hstep]
    split
    · rename_i hacc
      exact take_going h ht hx hrecords hawaits hload hmem hbehind hacc hcatalogue'
    · rename_i hacc
      have hledger := h.ledger
      rw [hx] at hledger
      have hpass := hledger.pass ((h.eligible_eq hbehind).trans (by simp [hacc]))
      rw [← hx] at hpass
      have hfall := h.load_lt hmem hbehind
        (g := { f with listing := some l', lastKey := some x.key }) rfl h.pending rfl listed listed
      refine ⟨⟨seen ++ [x], groups, ⟨h.setup, h.pending, hcatalogue', hpass, h.log, h.listings,
        h.fetches, h.lookups⟩, hrecords, hawaits⟩, ?_, fun htrue => ⟨hx, ?_, nofun⟩⟩
      · exact Nat.lt_of_lt_of_le hfall (Nat.le_of_lt_succ hload)
      · rintro _ ⟨⟩ hd
        exact (hlisted htrue).2.1 l hl (hdone ▸ hd)
  · -- the end of the listing
    simp only [hstep]
    refine ⟨⟨seen, groups, ⟨h.setup, h.pending, hcatalogue', h.ledger, h.log, h.listings,
      h.fetches, h.lookups⟩, hrecords, hawaits⟩, ?_, fun htrue => ⟨hx, nofun, fun _ => ?_⟩⟩
    · have := listingLoad_pos l
      rw [load_of_idle (f := { f with listing := none }) hx h.pending]
      show 8 * (f.unseen (f₀.stock w)).length + _ + 0 < _
      omega
    · exact (hlisted htrue).2.1 l hl hdone
  · -- a page, with an object or without further ones
    simp only [hstep]
    refine ⟨⟨seen, groups, ⟨h.setup, h.pending, hcatalogue', h.ledger, h.log, h.listings,
      h.fetches, h.lookups⟩, hrecords, fun key hk => hmore key (hawaits key hk)⟩, ?_,
      fun htrue => ⟨hx, ?_, nofun⟩⟩
    · have hfull : listingLoad (some l) = 2 := by simp [listingLoad, hb, hd]
      have hless : listingLoad (some l') = 1 := by
        rcases hprogress with hne | hdone
        · simp [listingLoad, hne]
        · simp [listingLoad, hdone]
      rw [load_of_idle (f := { f with listing := some l' }) hx h.pending, hless]
      show 8 * (f.unseen (f₀.stock w)).length + _ + 1 < _
      omega
    · rintro _ ⟨⟩ hd
      exact hdone hd
  · simp only [hstep]
    exact over_some ⟨seen, groups, ⟨h.setup, h.pending, hcatalogue', h.ledger, h.log, h.listings,
      h.fetches, h.lookups⟩, hrecords, fun key hk => hmore key (hawaits key hk)⟩

end Search

/-- **Each turn keeps the history.** -/
theorem turn_going (h : f₀.Going before start records (limit + 1) listed f w) :
    (f.turn listed w).Leads (f₀.Going before start records limit)
      (f₀.Over before start records) := by
  have hgoing := h
  obtain ⟨⟨seen, groups, hhistory, hrecords, hawaits⟩, hload, hlisted⟩ := hgoing
  refine turn_leads ?_ (fun x ht hx => advance_going h ht hx) ?_
    (fun l ht hx _ hl => search_going h ht hx hl) ?_ ?_
  · intro ht
    exact ⟨⟨seen, groups, hhistory, hrecords, hawaits⟩, fun _ hf => absurd hf (by simp [ht])⟩
  · intro s _ _ hp
    simp [hhistory.pending] at hp
  · intro _ hx _ hl htrue
    exact ⟨⟨seen, groups, hhistory, hrecords, hawaits⟩, fun _ _ => ⟨hx, hl, (hlisted htrue).2.2 hl⟩⟩
  · intro _ hx hp hl hfalse
    have hcatalogue := hhistory.catalogue
    rw [hl] at hcatalogue
    let g : Feed := { f with listing := some (f.lister.start f.lastKey) }
    have hbegin : Catalogue f₀.lister seen g.listing f.lastKey w.objects := by
      simp only [g]
      rw [lister_congr hhistory.setup]
      exact hcatalogue.begin
    show f₀.Going before start records limit true g w
    refine ⟨⟨seen, groups, ⟨hhistory.setup, hhistory.pending, hbegin, hhistory.ledger,
      hhistory.log, hhistory.listings, hhistory.fetches, hhistory.lookups⟩, hrecords, hawaits⟩,
      ?_, fun _ => ⟨hx, ?_, nofun⟩⟩
    · have hlisting := listingLoad_le g.listing
      rw [load_of_idle hx hp, hl, hfalse] at hload
      rw [load_of_idle (f := g) hx hp]
      show 8 * (f.unseen (f₀.stock w)).length + 0 + listingLoad g.listing < limit
      have hload : 8 * (f.unseen (f₀.stock w)).length + 4 + 0 < limit + 1 := hload
      omega
    · rintro _ ⟨⟩ hd
      simp [Lister.start] at hd

end Call

/-- **A call keeps the history**, adds its record to it, and delivers nothing only if there is
nothing new. -/
theorem history_next (h : History f₀ before seen groups f w) :
    f₀.Over before w.objects (groups.flatMap (·.2)) (f.nextRecorded w).1 (f.nextRecorded w).2.1
      (f.nextRecorded w).2.2 := by
  have hload : f.load (f₀.stock w) false < f.turnLimit w.plain := by
    have hbound := Feed.load_lt f (f₀.stock w)
    have hlimit : 8 * (f₀.stock w).objects.members.length + 16 ≤ f.turnLimit w.plain := by
      unfold turnLimit
      rw [lister_congr h.setup]
      exact Nat.add_le_add_right (Nat.mul_le_mul_left 8 (Nat.le_add_right ..)) 16
    omega
  refine pull_leads (P := f₀.Going before w.objects (groups.flatMap (·.2)))
    (fun _ _ _ _ hgoing => turn_going hgoing) ?_ _
    (going_false ⟨seen, groups, h, by rw [List.append_nil], fun _ hk => hk⟩ hload)
  exact fun _ _ _ hgoing => absurd hgoing.2.1 (Nat.not_lt_zero _)

/-- An object that arrives between calls keeps the history. -/
theorem History.put (h : History f₀ before seen groups f w) (bucket key : String) (body : Body) :
    History f₀ before seen groups f { w with objects := w.objects.put bucket key body } :=
  ⟨h.setup, h.pending, h.catalogue.put bucket key body, h.ledger, h.log, h.listings, h.fetches,
    h.lookups⟩

/-- **Calls and arrivals keep the history**, and no key is lost that is awaited. -/
theorem history_arrive (h : History f₀ before seen groups f w) (moves : List Move) :
    let run := arrive nextRecorded Recorded.put moves f w
    f₀.Underway before w.objects (groups.flatMap (·.2)) (recordsOf run.1) run.2.1 run.2.2 := by
  induction moves generalizing f w seen groups with
  | nil => exact ⟨seen, groups, h, (List.append_nil _).symm, fun _ hk => hk⟩
  | cons move moves ih =>
    cases move with
    | put bucket key body =>
      obtain ⟨seen', groups', h', hrecords, hawaits⟩ := ih (h.put bucket key body)
      exact ⟨seen', groups', h', hrecords, fun k hk => hawaits k (hk.put bucket key body)⟩
    | next =>
      -- the rest of the run goes on from the history after this call
      obtain ⟨⟨seen₁, groups₁, h₁, hrecords₁, hawaits₁⟩, -⟩ := history_next h
      obtain ⟨seen₂, groups₂, h₂, hrecords₂, hawaits₂⟩ := ih h₁
      refine ⟨seen₂, groups₂, h₂, ?_, fun k hk => hawaits₂ k (hawaits₁ k hk)⟩
      rw [hrecords₂, hrecords₁, List.append_assoc]
      exact congrArg _ (List.filterMap_append (l := [(f.nextRecorded w).1])).symm

/-- A feed that has just started has no history. -/
theorem history_start {d : Directories} {c : FeedConfig} {failed : KeySet}
    (hf : start d c failed = .ok f) {w : MemoryWorld} (hw : w.Quiet) :
    History f w.objects.fetchLog [] [] f w.recorded := by
  obtain ⟨hlisting, hlastKey, hcurrent, hpending, -⟩ := fresh_start hf
  refine ⟨rfl, hpending, ?_, ?_, (List.append_nil _).symm,
    ⟨hw.listFailures, hw.queuedListings⟩, hw.fetchFailures, hw.lookupFailures, hw.queuedLookups⟩
  · rw [hlisting, hlastKey]
    exact ⟨rfl, rfl, List.Pairwise.nil, nofun, nofun⟩
  · rw [hcurrent]
    exact ⟨by simp, List.nil_prefix, fun _ => rfl, by simp, fun _ _ => rfl⟩

section Run

variable {d : Directories} {c : FeedConfig} {failed : KeySet}

theorem History.ascending (h : History f₀ before seen groups f w) :
    (groups.map (·.1)).Pairwise (· < ·) := by
  have hlisted := h.catalogue.ascending
  rw [h.catalogue.listed] at hlisted
  have hseen : (seen.map (·.key)).Pairwise (· < ·) :=
    List.pairwise_map.2 (List.pairwise_append.1 hlisted).1
  exact hseen.sublist (h.ledger.fetched.sublist.trans (List.filter_sublist.map _))

/-- When there is nothing new, the objects that were listed and are eligible have been fetched. -/
theorem History.count_eq_one (h : History f₀ before seen groups f w) (ht : f.terminated = false)
    (hx : f.current = none) (hl : f.listing = none) {s : Summary} (hs : s ∈ w.objects.listed)
    (heligible : f₀.eligible s = true) : (groups.map (·.1)).count s.key = 1 := by
  have hlisted := h.catalogue.listed
  rw [hl, Option.elim_none, List.append_nil] at hlisted
  have hcomplete := h.ledger.complete ht
  rw [hx, Option.elim_none, List.append_nil] at hcomplete
  have hnodup : (groups.map (·.1)).Nodup := h.ascending.imp String.ne_of_lt
  refine List.count_eq_one_of_mem hnodup ?_
  rw [← hcomplete]
  rw [hlisted] at hs
  exact List.mem_map.2 ⟨s, List.mem_filter.2 ⟨hs, heligible⟩, rfl⟩

/-- After a last call that finds nothing, nothing is left to be listed. -/
theorem exhausted_of_getLast? (h : History f₀ before seen groups f w) {moves : List Move}
    (hmoves : moves.getLast? = some .next)
    (hnone : (arrive nextRecorded Recorded.put moves f w).1.getLast? = some none)
    (ht : (arrive nextRecorded Recorded.put moves f w).2.1.terminated = false) :
    let run := arrive nextRecorded Recorded.put moves f w
    run.2.1.current = none ∧ run.2.1.listing = none ∧ run.2.2.objects.Exhausted f₀.lister := by
  obtain ⟨earlier, rfl⟩ := List.getLast?_eq_some_iff.1 hmoves
  obtain ⟨seen', groups', h', -, -⟩ := history_arrive h earlier
  rw [arrive_append] at hnone ht ⊢
  refine (history_next h').2 ?_ ht
  simpa [arrive] using hnone

/-- A key that was awaited at some time of a run has been listed when nothing is left. -/
theorem listed_of_awaits (h : History f₀ before seen groups f w) {moves₁ moves₂ : List Move}
    {key : String}
    (hkey : (arrive nextRecorded Recorded.put moves₁ f w).2.2.objects.Awaits f₀.lister key)
    (hnone : (arrive nextRecorded Recorded.put (moves₁ ++ moves₂) f w).2.2.objects.Exhausted
      f₀.lister) :
    ∃ s ∈ (arrive nextRecorded Recorded.put (moves₁ ++ moves₂) f w).2.2.objects.listed,
      s.key = key := by
  obtain ⟨seen₁, groups₁, h₁, -, -⟩ := history_arrive h moves₁
  obtain ⟨-, -, -, -, hawaits⟩ := history_arrive h₁ moves₂
  rw [arrive_append] at hnone ⊢
  exact (hawaits key hkey).listed_of_exhausted hnone

/-- **The order and the completeness of a run** with arrivals between the calls and without
failures. The records are those of the fetched objects, object by object in the order of their keys.
A call that finds nothing leaves nothing after the last key that was listed. What arrives after all
keys listed by then is listed, and fetched just once if it is the feed's to read and was not empty.
-/
theorem arrivals_complete {f : Feed} (hf : start d c failed = .ok f) {w : MemoryWorld}
    (hw : w.Quiet) (moves : List Move) :
    let run := fun moves => arrive nextRecorded Recorded.put moves f w.recorded
    let stored := fun moves => (run moves).2.2.objects.store.stock c.bucket
    let listed := fun moves => (run moves).2.2.objects.listed
    arrive next MemoryObjects.put moves f w =
        ((run moves).1, (run moves).2.1, (run moves).2.2.plain) ∧
      ∃ groups : List (String × List Delivery),
        (run moves).2.2.objects.store.fetchLog = w.objects.fetchLog ++ groups.map (·.1) ∧
        recordsOf (run moves).1 = groups.flatMap (·.2) ∧
        (∀ g ∈ groups, ∀ x ∈ g.2, x.key = keyData g.1) ∧
        (groups.map (·.1)).Pairwise (· < ·) ∧
        (moves.getLast? = some .next → (run moves).1.getLast? = some none →
          (run moves).2.1.terminated = false →
          (∀ key body, (stored moves).get? key = some body →
            startsWith c.keyPrefix key = true →
            isAfter (run moves).2.1.lastKey key = false) ∧
          ∀ moves₁ moves₂ key body, moves = moves₁ ++ moves₂ →
            (stored moves₁).get? key = some body → startsWith c.keyPrefix key = true →
            (∀ s ∈ listed moves₁, s.key < key) → f.filter.assignment.owns key = true →
            failed.contains key = false → (f.identify key).isSome = true →
            ∃ s ∈ listed moves, s.key = key ∧
              (0 < s.size → (groups.map (·.1)).count key = 1)) := by
  intro run stored listed
  have hstart := history_start hf hw
  obtain ⟨seen, groups, h, hrecords, -⟩ := history_arrive hstart moves
  refine ⟨arrive_plain moves f w.recorded, groups, h.log, hrecords.symm, h.ledger.keys,
    h.ascending, fun hlast hnone hterm => ?_⟩
  obtain ⟨hcurrent, hlisting, hexhausted⟩ := exhausted_of_getLast? hstart hlast hnone hterm
  obtain ⟨hbucket, hprefix, hfailed⟩ : f.lister.bucket = c.bucket ∧
      f.lister.keyPrefix = c.keyPrefix ∧ f.filter.failed = failed := by
    obtain ⟨template, settings, -, -, rfl⟩ := start_eq_ok_iff.1 hf
    exact ⟨rfl, rfl, rfl⟩
  have hstored : ∀ moves, stored moves = (run moves).2.2.objects.store.stock f.lister.bucket :=
    fun _ => by rw [hbucket]
  rw [← hprefix, ← hfailed]
  refine ⟨fun key body hkey hstarts => ?_, ?_⟩
  · -- the listing is over, so that all that was listed has been seen
    have hlastKey : (run moves).2.1.lastKey = frontier (listed moves) := by
      have hlisted := h.catalogue.listed
      rw [hlisting, Option.elim_none, List.append_nil] at hlisted
      rw [h.catalogue.lastKey, ← hlisted]
    rw [hlastKey]
    refine Bool.eq_false_iff.2 fun hafter => ?_
    rw [hstored] at hkey
    obtain ⟨s, hs, -⟩ := MemoryObjects.exists_mem_matching hkey hstarts hafter
    rw [hexhausted] at hs
    simp at hs
  · rintro moves₁ moves₂ key body rfl hkey hstarts hlater howns hnot hidentity
    rw [hstored] at hkey
    obtain ⟨s, hs, rfl⟩ := listed_of_awaits hstart
      (.inr ⟨hstarts, ⟨body, hkey⟩, isAfter_frontier hlater⟩) hexhausted
    refine ⟨s, hs, rfl, fun hsize => h.count_eq_one hterm hcurrent hlisting hs ?_⟩
    simp [eligible, TaskFilter.accepts, hsize, howns, hnot, hidentity]

end Run

/-- A record of the first object, and then the rest. In between an object arrives that comes too
late to be listed, one in place of the object that is being read, and one in place of an empty
object. -/
def sampleMoves : List Move :=
  [.next, .put "store" "aa" [.data [5]], .put "store" "a" [.data [9]],
    .put "store" "d" [.data [6]], .next, .next, .next, .next, .next]

theorem arrivals_complete_sample :
    let run := arrive nextRecorded Recorded.put sampleMoves sampleFeed sampleWorld.recorded
    run.1.getLast? = some none ∧ run.2.1.terminated = false ∧
      ∃ groups : List (String × List Delivery),
        run.2.2.objects.store.fetchLog = sampleWorld.objects.fetchLog ++ groups.map (·.1) ∧
        recordsOf run.1 = groups.flatMap (·.2) ∧ (groups.map (·.1)).Pairwise (· < ·) ∧
        ∃ s ∈ run.2.2.objects.listed, s.key = "d" ∧
          (0 < s.size → (groups.map (·.1)).count "d" = 1) := by
  have hmain := arrivals_complete start_sampleConfig (w := sampleWorld) ⟨rfl, rfl, rfl, rfl, rfl⟩
    sampleMoves
  dsimp only at hmain ⊢
  have hnone : (arrive nextRecorded Recorded.put sampleMoves sampleFeed
      sampleWorld.recorded).1.getLast? = some none := by cbv
  have hterm : (arrive nextRecorded Recorded.put sampleMoves sampleFeed
      sampleWorld.recorded).2.1.terminated = false := by cbv
  obtain ⟨-, groups, hlog, hrecords, -, hascending, hcomplete⟩ := hmain
  have hall := (hcomplete rfl hnone hterm).2 (sampleMoves.take 4) (sampleMoves.drop 4) "d"
    [.data [6]] (List.take_append_drop 4 sampleMoves).symm (by cbv) rfl (by cbv; decide) (by cbv)
    rfl (by cbv)
  exact ⟨hnone, hterm, groups, hlog, hrecords, hascending, hall⟩

end Feed

end ObjectFeed
