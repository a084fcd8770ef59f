import ObjectFeed.Proofs.Lifetime
import ObjectFeed.Proofs.Labels
import ObjectFeed.Proofs.Restart

/-!
# Offsets as snapshots

The progress of an object is kept in three places: in the stream that reads it, in the cache, and in
the offset of each record that goes out. They are brought up to date at different times and built
anew after a release or a failure, and still they agree.

* `Offset.reached`: the persisted progress of an identity and the records that went out since.
* `OffsetCache.Knows`: what the cache holds of it.
* `Feed.Taken`: the stream that reads the object is there, too.
* `Feed.Snapshot`: the record that goes out next carries it.
* `Feed.agrees_turn`, `Feed.agrees_steps`: **turns and runs keep them in agreement.**
* `Feed.resumable_snapshots`: **every offset that goes out is the progress of its object.**
-/

namespace ObjectFeed

/-- The record went out under the identity. -/
def Delivery.isUnder (k : OffsetKey) (d : Delivery) : Bool := d.identity.same k.properties

theorem Delivery.isUnder_iff {k : OffsetKey} {d : Delivery} :
    d.isUnder k = true ↔ d.identity = k.properties :=
  k.same_properties d.identity

namespace Offset

/-- What the properties of an offset are read as is that offset. -/
theorem eq_of_ofProperties {o o' : Offset} (h : o.Separate)
    (ho : ofProperties o.properties = .ok o') : o' = o := by
  obtain ⟨-, -, -, -, hcount, hextra⟩ := ofProperties_eq_ok ho
  have hkey : o'.key = o.key := key_of_ofProperties ho fun name hn hc =>
    (o.get?_properties_owned hn hc ∅).1
  have hsome : o.properties.get? "recordCount" = some (.ofNat o.count) := by
    rw [get?_properties, if_pos rfl]
  have hcount : o'.count = o.count := eq_of_countOf hsome hcount
  have hextra : o'.extra = o.extra := hextra.trans (unowned_properties h)
  show (⟨o'.key, o'.count, o'.extra⟩ : Offset) = o
  rw [hkey, hcount, hextra]

variable {persisted : OffsetKey → Option Properties} {ds : List Delivery} {d : Delivery}
variable {k l : OffsetKey}

/-- The persisted progress of an identity, and the records that went out since. -/
def reached (persisted : OffsetKey → Option Properties) (ds : List Delivery) (k : OffsetKey) :
    Offset :=
  { recorded persisted k with count := (recorded persisted k).count + ds.countP (·.isUnder k) }

theorem reached_key (hr : Resumable persisted) (ds : List Delivery) (k : OffsetKey) :
    (reached persisted ds k).key = k :=
  recorded_key hr k

theorem separate_reached (persisted : OffsetKey → Option Properties) (ds : List Delivery)
    (k : OffsetKey) : (reached persisted ds k).Separate :=
  separate_recorded persisted k

/-- Without records the progress is the persisted one. -/
theorem reached_of_none (h : ds.countP (·.isUnder k) = 0) :
    reached persisted ds k = recorded persisted k := by
  unfold reached
  rw [h]
  rfl

/-- Records that go out under other identities are no progress. -/
theorem reached_append {later : List Delivery} (h : ∀ x ∈ later, x.identity ≠ k.properties) :
    reached persisted (ds ++ later) k = reached persisted ds k := by
  have hnone : later.countP (·.isUnder k) = 0 := by
    refine List.countP_eq_zero.2 fun x hx => ?_
    rw [Delivery.isUnder_iff]
    exact h x hx
  unfold reached
  rw [List.countP_append, hnone]
  rfl

/-- A record that goes out is progress of its identity. -/
theorem reached_concat (h : d.identity = k.properties) :
    reached persisted (ds ++ [d]) k = (reached persisted ds k).next := by
  have hone : [d].countP (·.isUnder k) = 1 := by
    rw [List.countP_singleton, if_pos (Delivery.isUnder_iff.2 h)]
  unfold reached
  rw [List.countP_append, hone]
  rfl

end Offset

namespace OffsetCache

variable {persisted : OffsetKey → Option Properties} {ds : List Delivery} {c : OffsetCache}
variable {k : OffsetKey}

/-- What the cache holds of an identity: its progress as it goes out, or as it was persisted if no
record of it has gone out. -/
def Knows (c : OffsetCache) (persisted : OffsetKey → Option Properties) (ds : List Delivery)
    (k : OffsetKey) : Prop :=
  c.slot? k = some (Offset.reached persisted ds k).properties ∨
    (ds.countP (·.isUnder k) = 0 ∧
      ∀ p, c.slot? k = some p → Offset.ofProperties p = .ok (.reached persisted ds k))

theorem knows_empty (persisted : OffsetKey → Option Properties) (k : OffsetKey) :
    Knows {} persisted [] k :=
  .inr ⟨rfl, fun _ hp => by cases hp⟩

theorem Knows.congr {c' : OffsetCache} {ds' : List Delivery} (h : c.Knows persisted ds k)
    (hslot : c'.slot? k = c.slot? k)
    (hcount : ds'.countP (·.isUnder k) = ds.countP (·.isUnder k)) : c'.Knows persisted ds' k := by
  unfold Knows Offset.reached at h ⊢
  rwa [hslot, hcount]

/-- What is known of an identity is read as its progress, if it is read. -/
theorem Knows.eq_of_slot (h : c.Knows persisted ds k) {p : Properties} {o : Offset}
    (hp : c.slot? k = some p) (ho : Offset.ofProperties p = .ok o) :
    o = .reached persisted ds k := by
  rcases h with hslot | ⟨-, hread⟩
  · obtain rfl : (Offset.reached persisted ds k).properties = p := by
      rw [hp] at hslot
      exact (Option.some.inj hslot).symm
    exact Offset.eq_of_ofProperties (Offset.separate_reached persisted ds k) ho
  · have hsame := hread p hp
    rw [ho] at hsame
    exact Except.ok.inj hsame

/-- **A look-up returns the progress of an identity**, and from then on something is known of it. -/
theorem knows_get (hr : Resumable persisted) (h : ∀ l, c.Knows persisted ds l) {t : MemoryOffsets}
    (ht : t.stored? = persisted) (k : OffsetKey) :
    (∀ l, (c.get t k).2.1.Knows persisted ds l) ∧ (c.get t k).2.2.stored? = persisted ∧
      ∀ o, (c.get t k).1 = .ok o →
        o = .reached persisted ds k ∧ (c.get t k).2.1.slot? k ≠ none := by
  cases hslot : c.slot? k with
  | some p =>
    rw [get_of_known hslot]
    refine ⟨h, ht, fun o ho => ⟨(h k).eq_of_slot hslot (mapError_eq_ok.1 ho), ?_⟩⟩
    rw [hslot]
    simp
  | none =>
    rcases MemoryOffsets.lookup_cases t k with ⟨-, -, hl⟩ | ⟨-, e, -, hl⟩
    · rw [get_of_found hslot hl, ht]
      have hnone : ds.countP (·.isUnder k) = 0 := by
        rcases h k with hsome | ⟨hnone, -⟩
        · rw [hslot] at hsome
          cases hsome
        · exact hnone
      have hprogress : c.progress persisted k = .reached persisted ds k := by
        rw [Offset.reached_of_none hnone]
        unfold progress Offset.recorded known
        rw [hslot, Option.none_or]
      have hread := (ofProperties_initial hr hslot).1
      rw [hprogress] at hread
      refine ⟨fun l => ?_, ht, fun o ho => ⟨?_, ?_⟩⟩
      · by_cases hlk : l = k
        · subst hlk
          refine .inr ⟨hnone, fun p hp => ?_⟩
          rw [slot?_fill, if_pos rfl] at hp
          rw [← Option.some.inj hp]
          exact hread
        · exact (h l).congr (by rw [slot?_fill, if_neg hlk]) rfl
      · have ho := mapError_eq_ok.1 ho
        rw [hread] at ho
        exact (Except.ok.inj ho).symm
      · rw [slot?_fill, if_pos rfl]
        simp
    · rw [get_of_failure hslot hl]
      exact ⟨h, ht, fun o ho => by cases ho⟩

/-- **The progress of an object that is being read takes the place of what was known of it**, with a
record that goes out or without one. -/
theorem knows_update {ds' : List Delivery} {o : Offset} {n : Nat}
    (h : ∀ l, c.Knows persisted ds l) (hslot : c.slot? o.key ≠ none)
    (hn : { o with count := n } = .reached persisted ds o.key)
    (ho : .reached persisted ds' o.key = o)
    (hothers : ∀ l, l ≠ o.key → ds'.countP (·.isUnder l) = ds.countP (·.isUnder l)) :
    ∀ l, (c.update o).Knows persisted ds' l := by
  intro l
  by_cases hl : l = o.key
  · subst hl
    left
    rw [ho]
    refine slot?_update_self (n := n) ?_
    rw [hn]
    rcases h o.key with hsome | ⟨-, hread⟩
    · exact .inr hsome
    · obtain ⟨p, hp⟩ := Option.ne_none_iff_exists'.1 hslot
      exact .inl ⟨p, hp, hread p hp⟩
  · exact (h l).congr (by rw [slot?_update, if_neg hl]) (hothers l hl)

end OffsetCache

/-- A decoder that ends has passed over no more records than it was told to. -/
theorem Decoder.le_of_pull {d : Decoder} {skip n : Nat} (h : d.pull skip = (.ended, n)) :
    n ≤ skip := by
  rcases Nat.lt_or_ge skip d.transcript.records.length with hlt | hge
  · obtain ⟨d', hp, -⟩ := pull_of_lt hlt
    rw [hp] at h
    cases h
  · rw [pull_of_le hge] at h
    rw [← (Prod.mk.inj h).2]
    exact hge

namespace RecordStream

variable {σ : Type} [ObjectStore σ] {s s' : RecordStream} {store store' : σ}

/-- A stream that ends has counted as far as it resumed from, or it stays where it was. -/
theorem offset_of_read_ended {d : Decoder} (hd : s.state = .reading d)
    (h : s.read store = (none, s', store')) :
    s'.offset = { s.offset with count := max s.offset.count s.resumeFrom } := by
  obtain ⟨⟨p, n⟩, hpull⟩ : ∃ out, d.pull (s.resumeFrom - s.offset.count) = out := ⟨_, rfl⟩
  simp only [read, hd, hpull] at h
  cases p with
  | record | failed => simp at h
  | ended =>
    have hs : s'.offset = { s.offset with count := max (s.offset.count + n) s.resumeFrom } :=
      (congrArg (fun out => out.2.1.offset) h).symm
    have hle := Decoder.le_of_pull hpull
    have hcount : max (s.offset.count + n) s.resumeFrom = max s.offset.count s.resumeFrom := by
      omega
    rw [hs, hcount]

/-- **A stream that ends leaves its offset as it was.** -/
theorem offset_of_ended (hfloor : s.resumeFrom ≤ s.offset.count)
    (h : s.next store = (none, s', store')) : s'.offset = s.offset := by
  cases hstate : s.state with
  | closed =>
    rw [next_of_closed hstate] at h
    cases h
    rfl
  | reading d =>
    rw [next_of_opened (by simp [hstate])] at h
    rw [offset_of_read_ended hstate h, Nat.max_eq_left hfloor]
  | pending =>
    obtain ⟨⟨answer, store₁⟩, hanswer⟩ :
      ∃ out, ObjectStore.fetch store s.bucket s.objectKey = out := ⟨_, rfl⟩
    cases answer with
    | error e => simp [next, RecordStream.open, hstate, hanswer] at h
    | ok body =>
      rcases next_of_pending hstate hanswer with ⟨e, -, hnext⟩ | ⟨d, -, hnext⟩
      · rw [h] at hnext
        cases hnext
      · rw [hnext] at h
        rw [offset_of_read_ended rfl h]
        simp only [Offset.rewind, Nat.zero_max]

/-- A stream that has opened its object has counted as far as it resumed from. -/
theorem Follows.le_count {t : Transcript} (h : s.Follows t) (hopened : s.state ≠ .pending) :
    s.resumeFrom ≤ s.offset.count := by
  cases hstate : s.state with
  | pending => exact (hopened hstate).elim
  | closed => simp [Follows, hstate] at h
  | reading d =>
    simp only [Follows, hstate] at h
    exact h.1

end RecordStream

theorem RecordStream.buckets_of_next {s s' : RecordStream} {store store' : MemoryObjects}
    {r : Option (Except Error Record)} (h : s.next store = (r, s', store')) :
    store'.buckets = store.buckets := by
  have hkept := next_keeps (P := fun t : MemoryObjects => t.buckets = store.buckets)
    (fun _ ht => ht) s (fun _ => rfl) fun _ => MemoryObjects.buckets_fetch ..
  rw [h] at hkept
  exact hkept

namespace Feed

section

variable (f₀ : Feed) (persisted : OffsetKey → Option Properties)

/-- The stream of an object is at the progress of its identity, of which something is known, and it
has read the body that is stored under the key. -/
structure Taken (ds : List Delivery) (w : MemoryWorld) (x : InFlight) : Prop where
  identity : f₀.identify x.summary.key = some x.stream.offset.key
  settings : x.stream.settings = f₀.settings
  bucket : x.stream.bucket = f₀.lister.bucket
  objectKey : x.stream.objectKey = x.summary.key
  offset : x.stream.offset = .reached persisted ds x.stream.offset.key
  floor : x.stream.resumeFrom ≤ x.stream.offset.count
  known : w.cache.slot? x.stream.offset.key ≠ none
  reads : x.stream.Reads fun body =>
    (w.objects.stock f₀.lister.bucket).get? x.summary.key = some body

/-- A record that goes out after others is the next one of its object, and carries the progress that
includes it. -/
def Snapshot (objects : MemoryObjects) (before : List Delivery) (x : Delivery) : Prop :=
  ∃ key k body r, (objects.stock f₀.lister.bucket).get? key = some body ∧
    f₀.identify key = some k ∧
    (body.transcript f₀.settings k).records[(Offset.reached persisted before k).count]? = some r ∧
    x = (Offset.reached persisted before k).delivery key
      ((Offset.reached persisted before k).count + 1) r

/-- The cache, the stream that reads an object and the records that went out agree on how far each
object has been read. -/
structure Agrees (ds : List Delivery) (f : Feed) (w : MemoryWorld) : Prop where
  setup : f.setup = f₀.setup
  stored : w.offsets.stored? = persisted
  cache : ∀ k, w.cache.Knows persisted ds k
  current : ∀ x, f.current = some x → f₀.Taken persisted ds w x
  snapshots : ∀ before x later, ds = before ++ x :: later →
    f₀.Snapshot persisted w.objects before x

end

variable {f₀ f : Feed} {persisted : OffsetKey → Option Properties} {ds : List Delivery}
variable {w : MemoryWorld}

/-- A larger stock of objects takes nothing away from a snapshot. -/
theorem Snapshot.mono {objects objects' : MemoryObjects} {before : List Delivery} {x : Delivery}
    (h : f₀.Snapshot persisted objects before x)
    (hstock : ∀ key body, (objects.stock f₀.lister.bucket).get? key = some body →
      (objects'.stock f₀.lister.bucket).get? key = some body) :
    f₀.Snapshot persisted objects' before x := by
  obtain ⟨key, k, body, r, hbody, hrest⟩ := h
  exact ⟨key, k, body, r, hstock key body hbody, hrest⟩

namespace Agrees

/-- What neither reads on nor looks progress up keeps the agreement. -/
theorem frame (h : f₀.Agrees persisted ds f w) {g : Feed} {w' : MemoryWorld}
    (hsetup : g.setup = f.setup) (hcurrent : g.current = none ∨ g.current = f.current)
    (hstored : w'.offsets.stored? = w.offsets.stored?) (hcache : w'.cache = w.cache)
    (hstock : ∀ key body, (w.objects.stock f₀.lister.bucket).get? key = some body →
      (w'.objects.stock f₀.lister.bucket).get? key = some body) : f₀.Agrees persisted ds g w' where
  setup := hsetup.trans h.setup
  stored := hstored.trans h.stored
  cache k := by
    rw [hcache]
    exact h.cache k
  current x hx := by
    rcases hcurrent with hnone | hsame
    · rw [hnone] at hx
      cases hx
    · have htaken := h.current x (hsame.symm.trans hx)
      refine ⟨htaken.identity, htaken.settings, htaken.bucket, htaken.objectKey, htaken.offset,
        htaken.floor, ?_, fun d hd => ?_⟩
      · rw [hcache]
        exact htaken.known
      · obtain ⟨body, hbody, hfollows⟩ := htaken.reads d hd
        exact ⟨body, hstock _ _ hbody, hfollows⟩
  snapshots before x later hds := (h.snapshots before x later hds).mono hstock

/-- A change of the feed alone. -/
theorem feed (h : f₀.Agrees persisted ds f w) {g : Feed} (hsetup : g.setup = f.setup)
    (hcurrent : g.current = none ∨ g.current = f.current) : f₀.Agrees persisted ds g w :=
  h.frame hsetup hcurrent rfl rfl fun _ _ hbody => hbody

/-- A change of the object store that leaves the objects alone. -/
theorem objects (h : f₀.Agrees persisted ds f w) {g : Feed} (hsetup : g.setup = f.setup)
    (hcurrent : g.current = none ∨ g.current = f.current) {objects : MemoryObjects}
    (hbuckets : objects.buckets = w.objects.buckets) :
    f₀.Agrees persisted ds g { w with objects } := by
  refine h.frame hsetup hcurrent rfl rfl fun key body hbody => ?_
  show (objects.stock f₀.lister.bucket).get? key = some body
  rw [MemoryObjects.stock_congr hbuckets]
  exact hbody

theorem afterStoreError (h : f₀.Agrees persisted ds f w) (s : Summary) (e : StoreError) :
    f₀.Agrees persisted ds (f.afterStoreError s e) w := by
  unfold Feed.afterStoreError
  split
  · exact h.feed rfl (.inr rfl)
  · exact h

/-- An outcome that is no record adds nothing to what went out. -/
theorem unmoved (h : f₀.Agrees persisted ds f w) {r : Option (Except Error Delivery)}
    (hr : ∀ d, r ≠ some (.ok d)) : f₀.Agrees persisted (ds ++ recordsOf [r]) f w := by
  have hnone : recordsOf [r] = [] := by
    rcases r with _ | e | d
    · rfl
    · rfl
    · exact (hr d rfl).elim
  rw [hnone, List.append_nil]
  exact h

/-- A record that goes out is the last one. -/
theorem snapshots_concat (h : f₀.Agrees persisted ds f w) {d : Delivery}
    (hd : f₀.Snapshot persisted w.objects ds d) (before : List Delivery) (x : Delivery)
    (later : List Delivery) (hds : ds ++ [d] = before ++ x :: later) :
    f₀.Snapshot persisted w.objects before x := by
  rcases List.eq_nil_or_concat later with rfl | ⟨later, y, rfl⟩
  · obtain ⟨rfl, hx⟩ := List.append_inj' hds rfl
    obtain rfl : d = x := by simpa using hx
    exact hd
  · rw [List.concat_eq_append, ← List.cons_append, ← List.append_assoc] at hds
    exact h.snapshots before x later (List.append_inj' hds rfl).1

end Agrees

/-- **The progress that is looked up is the one that is reached.** -/
theorem agrees_take (hr : Resumable persisted) (h : f₀.Agrees persisted ds f w)
    (hx : f.current = none) (s : Summary) :
    (f.take s w).Leads (fun _ f w => f₀.Agrees persisted ds f w)
      (fun r f w => f₀.Agrees persisted (ds ++ recordsOf [r]) f w) := by
  have hlooked : ∀ k out cache offsets, w.cache.get w.offsets k = (out, cache, offsets) →
      f₀.Agrees persisted ds f { w with cache, offsets } ∧
        ∀ o, out = .ok o → o = .reached persisted ds k ∧ cache.slot? k ≠ none := by
    intro k out cache offsets hget
    obtain ⟨hcache, hstored, hfound⟩ := OffsetCache.knows_get hr h.cache h.stored k
    rw [hget] at hcache hstored hfound
    exact ⟨⟨h.setup, hstored, hcache, by simp [hx], h.snapshots⟩, hfound⟩
  refine take_leads (fun _ => h) ?_ ?_ ?_
  · intro k o cache offsets hk hget
    obtain ⟨hafter, hfound⟩ := hlooked k _ _ _ hget
    obtain ⟨ho, hslot⟩ := hfound o rfl
    have hkey : o.key = k := by rw [ho, Offset.reached_key hr]
    refine ⟨hafter.setup, hafter.stored, hafter.cache, ?_, hafter.snapshots⟩
    rintro x ⟨⟩
    refine ⟨?_, settings_congr h.setup, ?_, rfl, ?_, Nat.le_refl _, ?_, ?_⟩
    · rw [← identify_congr h.setup, hk]
      exact congrArg some hkey.symm
    · exact congrArg Lister.bucket (lister_congr h.setup)
    · show o = .reached persisted ds o.key
      rw [hkey]
      exact ho
    · show cache.slot? o.key ≠ none
      rw [hkey]
      exact hslot
    · rintro d ⟨⟩
  · intro k e cache offsets _ hget
    exact ((hlooked k _ _ _ hget).1.afterStoreError s e).unmoved (by simp)
  · intro k e cache offsets _ hget
    have hafter := (hlooked k _ _ _ hget).1.feed (g := { f with terminated := true }) rfl (.inr rfl)
    exact hafter.unmoved (by simp)

theorem agrees_search (hr : Resumable persisted) (h : f₀.Agrees persisted ds f w)
    (hx : f.current = none) (l : Listing) (listed : Bool) :
    (f.search l listed w).Leads (fun _ f w => f₀.Agrees persisted ds f w)
      (fun r f w => f₀.Agrees persisted (ds ++ recordsOf [r]) f w) := by
  have hbuckets : ∀ step l' objects, l.step w.objects = (step, l', objects) →
      objects.buckets = w.objects.buckets := by
    intro step l' objects hstep
    have hkept := Listing.step_keeps (P := fun s : MemoryObjects =>
      s.buckets = w.objects.buckets) (fun _ _ hs => hs) l rfl
    rw [hstep] at hkept
    exact hkept
  refine search_leads ?_ ?_ ?_ ?_
  · intro s l' objects hstep
    have hafter := h.objects (g := { f with listing := some l', lastKey := some s.key }) rfl
      (.inr rfl) (hbuckets _ _ _ hstep)
    exact ⟨fun _ => agrees_take hr hafter hx s, fun _ => hafter⟩
  · intro l' objects hstep
    exact h.objects (g := { f with listing := some l' }) rfl (.inr rfl) (hbuckets _ _ _ hstep)
  · intro l' objects hstep
    exact h.objects (g := { f with listing := none }) rfl (.inr rfl) (hbuckets _ _ _ hstep)
  · intro e l' objects hstep
    have hafter := h.objects (g := { f with listing := none }) rfl (.inr rfl)
      (hbuckets _ _ _ hstep)
    exact hafter.unmoved (by simp)

section Reading

variable {x : InFlight} {stream : RecordStream} {objects : MemoryObjects}

/-- **A record carries the progress of its stream**, which is the one that is reached with it. -/
theorem agrees_record (h : f₀.Agrees persisted ds f w) (hx : f.current = some x) {r : Record}
    (hnext : x.stream.next w.objects = (some (.ok r), stream, objects)) :
    f₀.Agrees persisted (ds ++ [deliver { x with stream } r])
      { f with current := some { x with stream } }
      { w with objects, cache := w.cache.update stream.offset } := by
  have htaken := h.current x hx
  have hbuckets : objects.buckets = w.objects.buckets := RecordStream.buckets_of_next hnext
  have hstock : objects.stock = w.objects.stock := MemoryObjects.stock_congr hbuckets
  have hstored : ∀ body store',
      ObjectStore.fetch w.objects x.stream.bucket x.stream.objectKey = (.ok body, store') →
      (w.objects.stock f₀.lister.bucket).get? x.summary.key = some body := by
    intro body store' hfetch
    rw [← htaken.bucket, ← htaken.objectKey]
    exact MemoryObjects.get?_stock_of_fetch hfetch
  obtain ⟨body, hbody, hrecord, hfollows, hoffset, hsettings, hbucket, hobjectKey⟩ :=
    RecordStream.next_record htaken.reads (fun _ => hstored) hnext
  have hkey : stream.offset.key = x.stream.offset.key := by
    rw [hoffset]
    rfl
  -- the record goes out under the identity of the object, and no other progress changes
  have hself : Offset.reached persisted (ds ++ [deliver { x with stream } r])
      x.stream.offset.key = stream.offset := by
    rw [Offset.reached_concat (congrArg OffsetKey.properties hkey), ← htaken.offset, hoffset]
  have hothers : ∀ l, l ≠ stream.offset.key →
      (ds ++ [deliver { x with stream } r]).countP (·.isUnder l) = ds.countP (·.isUnder l) := by
    intro l hl
    have hnot : ¬ (deliver { x with stream } r).isUnder l = true := by
      rw [Delivery.isUnder_iff]
      exact fun hsame => hl (OffsetKey.properties_injective hsame).symm
    rw [List.countP_append, List.countP_singleton, if_neg hnot, Nat.add_zero]
  have hsnapshot : f₀.Snapshot persisted w.objects ds (deliver { x with stream } r) := by
    refine ⟨x.summary.key, x.stream.offset.key, body, r, hbody, htaken.identity, ?_, ?_⟩
    · rw [← htaken.offset, ← htaken.settings]
      exact hrecord
    · rw [← htaken.offset]
      unfold deliver Offset.delivery
      simp only [hoffset]
      rfl
  refine ⟨h.setup, h.stored, ?_, ?_, fun before y later hds => ?_⟩
  · refine OffsetCache.knows_update (n := x.stream.offset.count) h.cache ?_ ?_ ?_ hothers
    · rw [hkey]
      exact htaken.known
    · rw [hkey, ← htaken.offset, hoffset]
      rfl
    · rw [hkey, hself]
  · rintro y ⟨⟩
    refine ⟨?_, hsettings.trans htaken.settings, hbucket.trans htaken.bucket,
      hobjectKey.trans htaken.objectKey, ?_, ?_, ?_, fun d _ => ?_⟩
    · show f₀.identify x.summary.key = some stream.offset.key
      rw [hkey]
      exact htaken.identity
    · show stream.offset = Offset.reached persisted _ stream.offset.key
      rw [hkey, hself]
    · have hopened := (x.stream.state_next w.objects).1
      rw [hnext] at hopened
      exact hfollows.le_count hopened
    · show (w.cache.update stream.offset).slot? stream.offset.key ≠ none
      rw [OffsetCache.slot?_update, if_pos rfl]
      simp
    · refine ⟨body, ?_, ?_⟩
      · show (objects.stock f₀.lister.bucket).get? x.summary.key = some body
        rw [hstock]
        exact hbody
      · show stream.Follows (body.transcript stream.settings stream.offset.key)
        rw [hsettings, hkey]
        exact hfollows
  · refine (h.snapshots_concat hsnapshot before y later hds).mono fun key body' hbody' => ?_
    show (objects.stock f₀.lister.bucket).get? key = some body'
    rw [hstock]
    exact hbody'

/-- An object that is no longer read leaves its progress in the cache. -/
theorem agrees_leave (h : f₀.Agrees persisted ds f w) (hx : f.current = some x) {g : Feed}
    (hsetup : g.setup = f.setup) (hcurrent : g.current = none)
    (hbuckets : objects.buckets = w.objects.buckets) :
    f₀.Agrees persisted ds g { w with objects, cache := w.cache.update x.stream.offset } := by
  have htaken := h.current x hx
  have hafter := h.objects hsetup (.inl hcurrent) hbuckets
  refine ⟨hafter.setup, hafter.stored, ?_, by simp [hcurrent], hafter.snapshots⟩
  exact OffsetCache.knows_update (n := x.stream.offset.count) h.cache htaken.known htaken.offset
    htaken.offset.symm fun _ _ => rfl

/-- **A turn of an object that is read keeps the agreement**: after a record, at the end of the
object, and at a failure. -/
theorem agrees_advance (h : f₀.Agrees persisted ds f w) (hx : f.current = some x) :
    (f.advance x w).Leads (fun _ f w => f₀.Agrees persisted ds f w)
      (fun r f w => f₀.Agrees persisted (ds ++ recordsOf [r]) f w) := by
  refine advance_leads (fun r stream objects hnext => agrees_record h hx hnext) ?_ ?_
  · intro e stream objects hnext
    have hbuckets : (RecordStream.giveBack stream.state objects).buckets = w.objects.buckets :=
      RecordStream.giveBack_keeps (P := fun t : MemoryObjects => t.buckets = w.objects.buckets)
        (fun _ ht => ht) _ (RecordStream.buckets_of_next hnext)
    have hafter := h.objects (g := { f with current := none }) rfl (.inl rfl) hbuckets
    refine afterStreamError_leads ?_ ?_ ?_
    · intro e' _
      exact (hafter.afterStoreError x.summary e').unmoved (by simp)
    · intro _ _
      have hended := hafter.feed (g := { f with current := none, terminated := true }) rfl
        (.inl rfl)
      exact hended.unmoved (by simp)
    · intro _ _
      exact hafter.feed rfl (.inl rfl)
  · intro stream objects hnext
    rw [RecordStream.offset_of_ended (h.current x hx).floor hnext]
    exact agrees_leave h hx rfl rfl (RecordStream.buckets_of_next hnext)

end Reading

/-- **A turn keeps the agreement**, with a record that goes out or without one. -/
theorem agrees_turn (hr : Resumable persisted) (h : f₀.Agrees persisted ds f w) (listed : Bool) :
    (f.turn listed w).Leads (fun _ f w => f₀.Agrees persisted ds f w)
      (fun r f w => f₀.Agrees persisted (ds ++ recordsOf [r]) f w) := by
  have hend : f₀.Agrees persisted (ds ++ recordsOf [none]) f w := h.unmoved (by simp)
  refine turn_leads (fun _ => hend) (fun x _ hx => agrees_advance h hx) ?_
    (fun l _ hx _ _ => agrees_search hr h hx l listed) (fun _ _ _ _ _ => hend) ?_
  · intro s _ hx _
    exact agrees_take (f := { f with pending := none }) hr (h.feed rfl (.inr rfl)) hx s
  · intro _ _ _ _ _
    exact h.feed rfl (.inr rfl)

theorem agrees_pull (hr : Resumable persisted) (h : f₀.Agrees persisted ds f w) (limit : Nat) :
    f₀.Agrees persisted (ds ++ recordsOf [(f.pull limit false w).1]) (f.pull limit false w).2.1
      (f.pull limit false w).2.2 :=
  pull_leads (P := fun _ _ f w => f₀.Agrees persisted ds f w)
    (Q := fun r f w => f₀.Agrees persisted (ds ++ recordsOf [r]) f w)
    (fun _ listed _ _ h => agrees_turn hr h listed) (fun _ _ _ h => h.unmoved (by simp)) _ h

/-- The records that an act returns. -/
def Answer.records : Answer → List Delivery
  | .pulled r => recordsOf [r]
  | .polled (.ok ds) => ds
  | _ => []

/-- The records of a batch go out together. -/
theorem agrees_collect (hr : Resumable persisted) (limit n : Nat) (batch : List Delivery)
    (h : f₀.Agrees persisted (ds ++ batch) f w) :
    f₀.Agrees persisted (ds ++ (Answer.polled (f.collect limit n batch w).1).records)
      (f.collect limit n batch w).2.1 (f.collect limit n batch w).2.2 := by
  induction n generalizing batch f w with
  | zero => exact h
  | succ n ih =>
    have hpull := agrees_pull hr h limit
    unfold collect
    generalize f.pull limit false w = out at hpull
    obtain ⟨r, f', w'⟩ := out
    rcases r with _ | e | d
    · rwa [show recordsOf [none] = [] from rfl, List.append_nil] at hpull
    · rw [show recordsOf [some (.error e)] = [] from rfl, List.append_nil] at hpull
      simp only
      split
      · rename_i hempty
        rwa [List.isEmpty_iff.1 hempty] at hpull
      · exact hpull.feed rfl (.inr rfl)
    · rw [List.append_assoc] at hpull
      exact ih (batch ++ [d]) hpull

theorem agrees_poll (hr : Resumable persisted) (h : f₀.Agrees persisted ds f w) (limit n : Nat) :
    f₀.Agrees persisted (ds ++ (Answer.polled (f.poll limit n w).1).records)
      (f.poll limit n w).2.1 (f.poll limit n w).2.2 := by
  have hbatch : f₀.Agrees persisted (ds ++ []) f w := by rwa [List.append_nil]
  unfold poll
  split
  · exact hbatch.feed rfl (.inr rfl)
  · exact agrees_collect hr limit n [] hbatch

theorem agrees_close (h : f₀.Agrees persisted ds f w) :
    f₀.Agrees persisted ds (f.close w).1 (f.close w).2 := by
  rcases close_cases f w with ⟨-, hclose⟩ | ⟨x, hx, hclose⟩
  · rw [hclose]
    exact h
  · have hraise : x.stream.offset.raiseTo x.stream.resumeFrom = x.stream.offset := by
      unfold Offset.raiseTo
      rw [Nat.max_eq_left (h.current x hx).floor]
    have hbuckets : (RecordStream.giveBack x.stream.state w.objects).buckets = w.objects.buckets :=
      RecordStream.giveBack_keeps (P := fun t : MemoryObjects => t.buckets = w.objects.buckets)
        (fun _ ht => ht) _ rfl
    rw [hclose, hraise]
    exact agrees_leave h hx rfl rfl hbuckets

section Steps

variable (limit : Feed → MemoryWorld → Nat)

/-- **An act keeps the agreement**, with the records that it returns. -/
theorem agrees_act (hr : Resumable persisted) (h : f₀.Agrees persisted ds f w) (a : Act) :
    f₀.Agrees persisted (ds ++ (act limit a f w).1.records) (act limit a f w).2.1
      (act limit a f w).2.2 := by
  cases a with
  | next => exact agrees_pull hr h _
  | poll n => exact agrees_poll hr h _ n
  | pollBatch => exact agrees_poll hr h _ _
  | close =>
    rw [show (act limit .close f w).1.records = [] from rfl, List.append_nil]
    exact agrees_close h

/-- The records that go out in a run. -/
def records : List (Step MemoryObjects MemoryOffsets) → Feed → MemoryWorld → List Delivery
  | [], _, _ => []
  | .ask a :: ss, f, w =>
    (act limit a f w).1.records ++ records ss (act limit a f w).2.1 (act limit a f w).2.2
  | .change g :: ss, f, w => records ss f (g w)

/-- A change between acts takes no object away and replaces none, and leaves what is persisted and
what is cached alone. -/
def Step.LeavesObjects (bucket : String) : Step MemoryObjects MemoryOffsets → Prop
  | .ask _ => True
  | .change g => ∀ w,
    (∀ key body, (w.objects.stock bucket).get? key = some body →
      ((g w).objects.stock bucket).get? key = some body) ∧
    (g w).offsets.stored? = w.offsets.stored? ∧ (g w).cache = w.cache

/-- **A run keeps the agreement**, with all records that go out. -/
theorem agrees_steps (hr : Resumable persisted) {ss : List (Step MemoryObjects MemoryOffsets)}
    (hss : ∀ s ∈ ss, s.LeavesObjects f₀.lister.bucket) (h : f₀.Agrees persisted ds f w) :
    f₀.Agrees persisted (ds ++ records limit ss f w) (steps limit ss f w).1
      (steps limit ss f w).2 := by
  induction ss generalizing ds f w with
  | nil => rwa [records, List.append_nil]
  | cons s ss ih =>
    obtain ⟨hs, hrest⟩ := List.forall_mem_cons.1 hss
    cases s with
    | ask a =>
      rw [records, ← List.append_assoc]
      exact ih hrest (agrees_act limit hr h a)
    | change g =>
      obtain ⟨hstock, hstored, hcache⟩ := hs w
      exact ih hrest (h.frame rfl (.inr rfl) hstored hcache hstock)

end Steps

/-- **Every offset that goes out is the progress of its object**, whatever is asked of a feed with
an empty cache, while requests may fail and objects arrive. Its record is the one at the place that
it counts, its properties are the persisted ones, and the counts go up one by one. It is read back
from its properties, and the cache returns it until the next record. Counts have 64 bits. -/
theorem resumable_snapshots {d : Directories} {c : FeedConfig} {failed : KeySet}
    (hf : start d c failed = .ok f) (hcache : w.cache = {}) (hr : Resumable w.offsets.stored?)
    (limit : Feed → MemoryWorld → Nat) {ss : List (Step MemoryObjects MemoryOffsets)}
    (hss : ∀ s ∈ ss, s.LeavesObjects c.bucket) {before later : List Delivery} {x : Delivery}
    (hx : records limit ss f w = before ++ x :: later) :
    let after := (steps limit ss f w).2
    ∃ key body r o, f.identify key = some o.key ∧
      (after.objects.stock c.bucket).get? key = some body ∧
      (body.transcript f.settings o.key).records[o.count - 1]? = some r ∧
      o = { Offset.recorded w.offsets.stored? o.key with
            count := (Offset.recorded w.offsets.stored? o.key).count +
              before.countP (·.isUnder o.key) + 1 } ∧
      x = o.delivery key o.count r ∧ x.identity = o.key.properties ∧ x.offset = o.properties ∧
      (o.count < pow2 64 → Offset.ofProperties x.offset = .ok o ∧
        ((∀ y ∈ later, y.identity ≠ x.identity) →
          (after.cache.get after.offsets o.key).1 = .ok o)) := by
  intro after
  have hfresh := fresh_start hf
  rw [← bucket_start hf] at hss ⊢
  have hstart : f.Agrees w.offsets.stored? [] f w := by
    refine ⟨rfl, rfl, fun k => ?_, by simp [hfresh.current], by simp⟩
    rw [hcache]
    exact OffsetCache.knows_empty _ k
  have hagrees := agrees_steps limit hr hss hstart
  rw [List.nil_append] at hagrees
  obtain ⟨key, k, body, r, hbody, hk, hrecord, hdelivery⟩ := hagrees.snapshots before x later hx
  let o := (Offset.reached w.offsets.stored? before k).next
  have hkey : o.key = k := Offset.reached_key hr before k
  have hoffset : x.offset = o.properties := by rw [hdelivery]; rfl
  have hidentity : x.identity = o.key.properties := by rw [hdelivery]; rfl
  refine ⟨key, body, r, o, ?_, hbody, ?_, ?_, hdelivery, hidentity, hoffset, fun hfits => ?_⟩
  · rw [hkey]
    exact hk
  · rw [hkey]
    exact hrecord
  · rw [hkey]
    rfl
  have hread : Offset.ofProperties o.properties = .ok o :=
    Offset.ofProperties_properties (Offset.separate_reached _ before k) hfits
  refine ⟨hoffset ▸ hread, fun hlast => ?_⟩
  -- the record is the last one of its object that went out
  rw [hidentity, hkey] at hlast
  have hreached : Offset.reached w.offsets.stored? (records limit ss f w) k = o := by
    rw [hx, List.append_cons, Offset.reached_append hlast,
      Offset.reached_concat (by rw [hidentity, hkey])]
  rw [hkey]
  rcases hagrees.cache k with hslot | ⟨hnone, -⟩
  · rw [hreached] at hslot
    rw [OffsetCache.get_of_known hslot, hread]
    rfl
  · exfalso
    have hunder : x.isUnder k = true := Delivery.isUnder_iff.2 (by rw [hidentity, hkey])
    rw [hx] at hnone
    exact List.countP_eq_zero.1 hnone x (by simp) hunder

/-- A note that is persisted with the identity of the first object. -/
def notedOffset : Offset :=
  { key := ⟨"store", "a", none, "a"⟩, extra := .ofList [("note", .string "kept")] }

def notedWorld : MemoryWorld :=
  { sampleWorld with
    offsets := sampleWorld.offsets.put notedOffset.key.properties
      (notedOffset.key.properties.insert "note" (.string "kept")) }

theorem resumable_notedWorld : Resumable notedWorld.offsets.stored? := by
  intro k p hp _
  have hstored := MemoryOffsets.stored?_put sampleWorld.offsets notedOffset.key k
    (notedOffset.key.properties.insert "note" (.string "kept"))
  rw [show notedWorld.offsets.stored? k = _ from hstored] at hp
  split at hp
  · rename_i hk
    cases hp
    exact ⟨notedOffset, by rfl, hk.symm⟩
  · cases hp

theorem leavesObjects_sampleSteps : ∀ s ∈ sampleSteps ++ [.ask .next],
    s.LeavesObjects "store" := by
  intro s hs
  simp only [sampleSteps, List.mem_append, List.mem_cons, List.not_mem_nil, or_false] at hs
  rcases hs with (rfl | rfl) | rfl
  · trivial
  · exact fun w => ⟨fun _ _ hbody => hbody, rfl, rfl⟩
  · trivial

/-- The second chunk of the first object goes out with the note, and the cache has the same. -/
theorem resumable_snapshots_sample :
    let ss := sampleSteps ++ [Step.ask .next]
    let after := (steps turnLimit ss sampleFeed notedWorld).2
    ∃ x y, records turnLimit ss sampleFeed notedWorld = [x, y] ∧
      y.offset = { notedOffset with count := 2 }.properties ∧
      Offset.ofProperties y.offset = .ok { notedOffset with count := 2 } ∧
      (after.cache.get after.offsets notedOffset.key).1 = .ok { notedOffset with count := 2 } := by
  dsimp only
  have hrun : (records turnLimit (sampleSteps ++ [.ask .next]) sampleFeed notedWorld).map
      (fun x => (x.identity, x.offset)) =
      [(notedOffset.key.properties, ({ notedOffset with count := 1 } : Offset).properties),
        (notedOffset.key.properties, ({ notedOffset with count := 2 } : Offset).properties)] := by
    cbv
  obtain ⟨x, rest, hrecords, hfirst, hrest⟩ := List.map_eq_cons_iff.1 hrun
  obtain ⟨y, rfl, hsecond⟩ := List.map_eq_singleton_iff.1 hrest
  obtain ⟨hx, -⟩ := Prod.mk.inj hfirst
  obtain ⟨hy, hoffset⟩ := Prod.mk.inj hsecond
  have hsplit : records turnLimit (sampleSteps ++ [.ask .next]) sampleFeed notedWorld =
      [x] ++ y :: [] := hrecords
  obtain ⟨key, body, r, o, -, -, -, ho, -, hidentity, -, hread⟩ :=
    resumable_snapshots start_sampleConfig rfl resumable_notedWorld turnLimit
      leavesObjects_sampleSteps hsplit
  have hkey : o.key = notedOffset.key :=
    OffsetKey.properties_injective (hidentity.symm.trans hy)
  have hrecorded : Offset.recorded notedWorld.offsets.stored? notedOffset.key = notedOffset := by
    rfl
  have hone : x.isUnder notedOffset.key = true := Delivery.isUnder_iff.2 hx
  rw [hkey, hrecorded, List.countP_singleton, if_pos hone] at ho
  obtain rfl : o = { notedOffset with count := 2 } := ho
  obtain ⟨hproperties, hcached⟩ := hread (by decide)
  exact ⟨x, y, hrecords, hoffset, hproperties, hcached (by simp)⟩

end Feed

end ObjectFeed
