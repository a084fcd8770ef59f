import ObjectFeed.Proofs.Frame
import ObjectFeed.Proofs.Closing
import ObjectFeed.Proofs.Growth
import ObjectFeed.Proofs.Workers

/-!
# The labels of records

A record goes out under the identity that the offset of its object names. That offset is read from
the properties that are persisted under the identity of the object, whatever identity those name.

* `Labels`: the identities under which the records of an object can go out.
* `OffsetCache.labels_of_get`: an offset that is looked up names one of them.
* `RecordStream.next_record`: a record is the one of its object at the place that it counts.
* `Feed.labelled`: **the object, the place and the label of every record that a feed delivers.**
* `Feed.mislabelled`: the label is not always that of the object.
-/

namespace ObjectFeed

/-- The records of an object with the identity `k` can go out under `label`: the identity itself, or
the one that the properties name which are persisted under it. -/
def Labels (persisted : OffsetKey → Option Properties) (k label : OffsetKey) : Prop :=
  label = k ∨ ∃ p o, persisted k = some p ∧ Offset.ofProperties p = .ok o ∧ o.key = label

/-- If all persisted properties name the identity they are stored under, there is no other label. -/
theorem Labels.eq_of_resumable {persisted : OffsetKey → Option Properties} {k label : OffsetKey}
    (h : Labels persisted k label) (hr : Resumable persisted) : label = k := by
  rcases h with h | ⟨p, o, hp, ho, rfl⟩
  · exact h
  · cases hempty : p.isEmpty with
    | true =>
      obtain ⟨e, he⟩ := Offset.ofProperties_of_isEmpty hempty
      rw [he] at ho
      cases ho
    | false =>
      obtain ⟨o', ho', hk⟩ := hr k p hp hempty
      rw [ho] at ho'
      rw [Except.ok.inj ho']
      exact hk

namespace Offset

/-- Properties with the identity of an offset are read as one with that identity. -/
theorem key_of_ofProperties {p : Properties} {o : Offset} {k : OffsetKey}
    (h : ofProperties p = .ok o)
    (hkey : ∀ name ∈ ownedNames, name ≠ "recordCount" → p.get? name = k.properties.get? name) :
    o.key = k := by
  obtain ⟨hb, ht, ho, hp, -⟩ := ofProperties_eq_ok h
  obtain ⟨hb', ht', ho', hp', -⟩ := ofProperties_eq_ok (ofProperties_identity k)
  have htext : ∀ name ∈ ownedNames, name ≠ "recordCount" →
      textAt p name = textAt k.properties name := by
    intro name hn hc
    rw [textAt, textAt, hkey name hn hc]
  have hpartition : partitionOf p = partitionOf k.properties := by
    rw [partitionOf, partitionOf, hkey "partition" (by decide) (by decide)]
  rw [htext "bucket" (by decide) (by decide), hb'] at hb
  rw [htext "topic" (by decide) (by decide), ht'] at ht
  rw [htext "objectKey" (by decide) (by decide), ho'] at ho
  rw [hpartition, hp'] at hp
  show (⟨o.key.bucket, o.key.topic, o.key.partition, o.key.objectKey⟩ : OffsetKey) = k
  rw [← Except.ok.inj hb, ← Except.ok.inj ht, ← Except.ok.inj ho, ← Except.ok.inj hp]

/-- The properties of an offset, merged into others or not, name its identity. -/
theorem get?_properties_owned (o : Offset) {name : String} (hn : name ∈ ownedNames)
    (hc : name ≠ "recordCount") (p : Properties) :
    o.properties.get? name = o.key.properties.get? name ∧
      (p.merge o.properties).get? name = o.key.properties.get? name := by
  have hsome : ∃ v, o.key.properties.get? name = some v := by
    rw [OffsetKey.get?_properties]
    simp only [ownedNames, List.mem_cons, List.not_mem_nil, or_false] at hn
    rcases hn with rfl | rfl | rfl | rfl | rfl
    all_goals simp_all
  obtain ⟨v, hv⟩ := hsome
  have hown : o.properties.get? name = some v := by
    rw [get?_properties, if_neg hc, hv, Option.some_or]
  exact ⟨hown.trans hv.symm, by rw [Dict.get?_merge, hown, hv, Option.some_or]⟩

end Offset

namespace OffsetCache

/-- What is known of an identity names one of its labels. -/
def Labelled (c : OffsetCache) (persisted : OffsetKey → Option Properties) : Prop :=
  ∀ k p o, c.slot? k = some p → Offset.ofProperties p = .ok o → Labels persisted k o.key

variable {c : OffsetCache} {persisted : OffsetKey → Option Properties} {k : OffsetKey}

theorem labelled_empty : Labelled {} persisted := by
  intro k p o hp
  simp [slot?] at hp

theorem Labelled.fill (h : c.Labelled persisted) {p : Properties}
    (hp : ∀ o, Offset.ofProperties p = .ok o → Labels persisted k o.key) :
    (c.fill k p).Labelled persisted := by
  intro l q o hq ho
  rw [slot?_fill] at hq
  split at hq
  · rename_i hl
    cases hq
    exact hl ▸ hp o ho
  · exact h l q o hq ho

/-- What is recorded for an offset goes under the identity that it names. -/
theorem Labelled.update (h : c.Labelled persisted) (o : Offset) :
    (c.update o).Labelled persisted := by
  unfold OffsetCache.update
  split
  · rename_i p _
    exact h.fill fun o' ho' => .inl (Offset.key_of_ofProperties ho' fun name hn hc =>
      (o.get?_properties_owned hn hc p).2)
  · exact h.fill fun o' ho' => .inl (Offset.key_of_ofProperties ho' fun name hn hc =>
      (o.get?_properties_owned hn hc ∅).1)

theorem labels_initial {found : Option Properties} (hf : ∀ p, found = some p → persisted k = some p)
    {o : Offset} (ho : Offset.ofProperties (initial k found) = .ok o) :
    Labels persisted k o.key := by
  have hidentity : Offset.ofProperties k.properties = .ok o → Labels persisted k o.key := by
    intro h
    rw [Offset.ofProperties_identity] at h
    exact .inl (Except.ok.inj h ▸ rfl)
  cases found with
  | none => exact hidentity ho
  | some p =>
    unfold initial at ho
    simp only at ho
    split at ho
    · exact hidentity ho
    · exact .inr ⟨p, o, hf p rfl, ho, rfl⟩

/-- **An offset that is looked up names a label of the identity**, and so does all that is known
afterwards. -/
theorem labels_of_get {t : MemoryOffsets} (h : c.Labelled t.stored?) (k : OffsetKey) :
    (c.get t k).2.1.Labelled t.stored? ∧ (c.get t k).2.2.stored? = t.stored? ∧
      ∀ o, (c.get t k).1 = .ok o → Labels t.stored? k o.key := by
  cases hslot : c.slot? k with
  | some p =>
    rw [get_of_known hslot]
    exact ⟨h, rfl, fun o ho => h k p o hslot (mapError_eq_ok.1 ho)⟩
  | none =>
    rcases MemoryOffsets.lookup_cases t k with ⟨-, -, hl⟩ | ⟨-, e, -, hl⟩
    · rw [get_of_found hslot hl]
      refine ⟨h.fill fun o ho => labels_initial (fun _ hp => hp) ho, rfl, fun o ho => ?_⟩
      exact labels_initial (fun _ hp => hp) (mapError_eq_ok.1 ho)
    · rw [get_of_failure hslot hl]
      exact ⟨h, rfl, fun o ho => by cases ho⟩

/-- What is recorded for an offset has its count. -/
theorem count_of_update (c : OffsetCache) (o : Offset) :
    ((c.update o).slot? o.key).bind (·.get? "recordCount") = some (.ofNat o.count) := by
  have hown : o.properties.get? "recordCount" = some (.ofNat o.count) := by
    rw [Offset.get?_properties, if_pos rfl]
  rw [slot?_update, if_pos rfl, Option.bind_some]
  cases c.slot? o.key with
  | none => simp only [hown]
  | some p => simp only [Dict.get?_merge, hown, Option.some_or]

end OffsetCache

namespace RecordStream

variable {σ : Type} [ObjectStore σ] {s s' : RecordStream} {store store' : σ} {r : Record}

/-- An open stream has read a body of which `Stored` holds, and follows it. -/
def Reads (s : RecordStream) (Stored : Body → Prop) : Prop :=
  ∀ d, s.state = .reading d →
    ∃ body, Stored body ∧ s.Follows (body.transcript s.settings s.offset.key)

/-- A record that an open stream delivers is the one at the place that `o` counts. -/
theorem read_record {t : Transcript} {d : Decoder} {o : Offset} (hd : s.state = .reading d)
    (ht : d.transcript = { t with records := t.records.drop s.offset.count })
    (hc : s.offset.count ≤ t.records.length) (ho : { s.offset with count := o.count } = o)
    (hn : o.count = max s.offset.count s.resumeFrom)
    (hread : s.read store = (some (.ok r), s', store')) :
    t.records[o.count]? = some r ∧ s'.Follows t ∧ s'.offset = o.next ∧
      s'.settings = s.settings ∧ s'.bucket = s.bucket ∧ s'.objectKey = s.objectKey := by
  rcases read_outcome hd ht hc ho hn store with
    ⟨hlt, y, d', hy, hfollows, hoffset, -, hsettings, hbucket, hkey⟩ | ⟨-, y, hy, -⟩
  · rw [hread] at hy
    simp only [Prod.mk.injEq, Option.some.injEq, Except.ok.injEq] at hy
    obtain ⟨rfl, rfl, -⟩ := hy
    exact ⟨List.getElem?_eq_getElem hlt, hfollows, hoffset, hsettings, hbucket, hkey⟩
  · rw [hread] at hy
    cases hfailure : t.failure <;> simp [hfailure] at hy

/-- **A record is the one of its object at the place that the stream counts**, if all bodies that
the store hands out under the key are `Stored`. -/
theorem next_record {Stored : Body → Prop} (h : s.Reads Stored)
    (hfetch : s.state = .pending → ∀ body store',
      ObjectStore.fetch store s.bucket s.objectKey = (.ok body, store') → Stored body)
    (hn : s.next store = (some (.ok r), s', store')) :
    ∃ body, Stored body ∧
      (body.transcript s.settings s.offset.key).records[s.offset.count]? = some r ∧
      s'.Follows (body.transcript s.settings s.offset.key) ∧ s'.offset = s.offset.next ∧
      s'.settings = s.settings ∧ s'.bucket = s.bucket ∧ s'.objectKey = s.objectKey := by
  cases hstate : s.state with
  | closed => simp [next, RecordStream.open, read, hstate] at hn
  | reading d =>
    obtain ⟨body, hbody, hfollows⟩ := h d hstate
    obtain ⟨hr, hc, ht⟩ : _ ∧ _ ∧ _ := by simpa [Follows, hstate] using hfollows
    have hread : s.next store = s.read store := by simp [next, RecordStream.open, hstate]
    rw [hread] at hn
    exact ⟨body, hbody, read_record hstate ht hc rfl (Nat.max_eq_left hr).symm hn⟩
  | pending =>
    obtain ⟨⟨answer, store₁⟩, hanswer⟩ :
      ∃ out, ObjectStore.fetch store s.bucket s.objectKey = out := ⟨_, rfl⟩
    cases answer with
    | error e => simp [next, RecordStream.open, hstate, hanswer] at hn
    | ok body =>
      rcases next_of_pending hstate hanswer with ⟨e, -, hnext⟩ | ⟨d, ht, hnext⟩
      · rw [hn] at hnext
        simp at hnext
      · -- the open stream has decoded nothing yet and passes over what the offset counted
        let s₀ : RecordStream := { s with
          state := .reading d, resumeFrom := s.offset.count, offset := s.offset.rewind }
        rw [hnext] at hn
        exact ⟨body, hfetch hstate body store₁ hanswer, read_record (s := s₀) (o := s.offset) rfl ht
          (Nat.zero_le _) rfl (Nat.zero_max _).symm hn⟩

end RecordStream

namespace Feed

section

variable (f₀ : Feed) (w₀ : MemoryWorld)

/-- The object that is being read goes under a label of its identity, and its stream has read the
body that is stored under its key. -/
structure ReadingOK (x : InFlight) : Prop where
  label : ∃ k, f₀.identify x.summary.key = some k ∧
    Labels w₀.offsets.stored? k x.stream.offset.key
  settings : x.stream.settings = f₀.settings
  bucket : x.stream.bucket = f₀.lister.bucket
  objectKey : x.stream.objectKey = x.summary.key
  reads : x.stream.Reads fun body =>
    (w₀.objects.stock f₀.lister.bucket).get? x.summary.key = some body

/-- What requests keep of a feed, of the stores and of the cache. -/
structure LabelsOK (f : Feed) (w : MemoryWorld) : Prop where
  setup : f.setup = f₀.setup
  buckets : w.objects.buckets = w₀.objects.buckets
  persisted : w.offsets.stored? = w₀.offsets.stored?
  cache : w.cache.Labelled w₀.offsets.stored?
  current : ∀ x, f.current = some x → f₀.ReadingOK w₀ x

/-- What is true of a record that has been delivered: it is a record of an object that is stored
under a key with an identity, it goes under a label of that identity, and its count is its place,
also in the cache. -/
def Emitted (d : Delivery) (cache : OffsetCache) : Prop :=
  ∃ key k label body i r,
    (w₀.objects.stock f₀.lister.bucket).get? key = some body ∧
    f₀.identify key = some k ∧ Labels w₀.offsets.stored? k label ∧
    (body.transcript f₀.settings label).records[i]? = some r ∧
    d.key = keyData key ∧ d.payload = r.payload ∧ d.schema = r.schema ∧
    d.topic = label.topic ∧ d.partition = label.partition ∧ d.identity = label.properties ∧
    d.offset.get? "recordCount" = some (.ofNat (i + 1)) ∧
    (cache.slot? label).bind (·.get? "recordCount") = some (.ofNat (i + 1))

end

variable {f₀ f : Feed} {w₀ w : MemoryWorld}

theorem settings_congr {g : Feed} (h : g.setup = f.setup) : g.settings = f.settings :=
  congrArg Prod.fst h

theorem LabelsOK.afterStoreError (h : LabelsOK f₀ w₀ f w) (s : Summary) (e : StoreError) :
    LabelsOK f₀ w₀ (f.afterStoreError s e) w := by
  unfold Feed.afterStoreError
  split
  · exact ⟨h.setup, h.buckets, h.persisted, h.cache, h.current⟩
  · exact h

/-- An object that is taken up goes under the label that its offset names. -/
theorem labels_take (h : LabelsOK f₀ w₀ f w) (s : Summary) :
    (f.take s w).Leads (fun _ f w => LabelsOK f₀ w₀ f w)
      (fun r f w => LabelsOK f₀ w₀ f w ∧ ∀ d, r = some (.ok d) → f₀.Emitted w₀ d w.cache) := by
  have hlabels : w.cache.Labelled w.offsets.stored? := h.persisted ▸ h.cache
  have hget : ∀ k out cache offsets, w.cache.get w.offsets k = (out, cache, offsets) →
      cache.Labelled w₀.offsets.stored? ∧ offsets.stored? = w₀.offsets.stored? ∧
        ∀ o, out = .ok o → Labels w₀.offsets.stored? k o.key := by
    intro k out cache offsets hk
    have hlooked := OffsetCache.labels_of_get hlabels k
    rw [hk, h.persisted] at hlooked
    exact hlooked
  have hafter : ∀ {cache : OffsetCache} {offsets : MemoryOffsets},
      cache.Labelled w₀.offsets.stored? → offsets.stored? = w₀.offsets.stored? →
      LabelsOK f₀ w₀ f { w with cache, offsets } :=
    fun hc ho => ⟨h.setup, h.buckets, ho, hc, h.current⟩
  refine take_leads (fun _ => h) ?_ ?_ ?_
  · intro k o cache offsets hk hlooked
    obtain ⟨hc, ho, hlabel⟩ := hget _ _ _ _ hlooked
    refine ⟨h.setup, h.buckets, ho, hc, ?_⟩
    rintro x ⟨⟩
    refine ⟨⟨k, ?_, hlabel o rfl⟩, settings_congr h.setup, ?_, rfl, ?_⟩
    · rw [← identify_congr h.setup]
      exact hk
    · exact congrArg Lister.bucket (lister_congr h.setup)
    · rintro d ⟨⟩
  · intro k e cache offsets _ hlooked
    obtain ⟨hc, ho, -⟩ := hget _ _ _ _ hlooked
    exact ⟨(hafter hc ho).afterStoreError s e, by simp⟩
  · intro k e cache offsets _ hlooked
    obtain ⟨hc, ho, -⟩ := hget _ _ _ _ hlooked
    exact ⟨⟨h.setup, h.buckets, ho, hc, h.current⟩, by simp⟩

theorem labels_search (h : LabelsOK f₀ w₀ f w) (l : Listing) (listed : Bool) :
    (f.search l listed w).Leads (fun _ f w => LabelsOK f₀ w₀ f w)
      (fun r f w => LabelsOK f₀ w₀ f w ∧ ∀ d, r = some (.ok d) → f₀.Emitted w₀ d w.cache) := by
  have hbuckets : ∀ step l' objects, l.step w.objects = (step, l', objects) →
      objects.buckets = w₀.objects.buckets := by
    intro step l' objects hstep
    have hkept := Listing.step_keeps (P := fun s : MemoryObjects =>
      s.buckets = w₀.objects.buckets) (fun _ _ hs => hs) l h.buckets
    rw [hstep] at hkept
    exact hkept
  refine search_leads ?_ ?_ ?_ ?_
  · intro s l' objects hstep
    have hafter : LabelsOK f₀ w₀ { f with listing := some l', lastKey := some s.key }
        { w with objects } :=
      ⟨h.setup, hbuckets _ _ _ hstep, h.persisted, h.cache, h.current⟩
    exact ⟨fun _ => labels_take hafter s, fun _ => hafter⟩
  · intro l' objects hstep
    exact ⟨h.setup, hbuckets _ _ _ hstep, h.persisted, h.cache, h.current⟩
  · intro l' objects hstep
    exact ⟨h.setup, hbuckets _ _ _ hstep, h.persisted, h.cache, h.current⟩
  · intro e l' objects hstep
    exact ⟨⟨h.setup, hbuckets _ _ _ hstep, h.persisted, h.cache, h.current⟩, by simp⟩

/-- A record of an object goes under its label, and so does its count in the cache. -/
theorem ReadingOK.record {x : InFlight} (h : f₀.ReadingOK w₀ x)
    (hbuckets : w.objects.buckets = w₀.objects.buckets) {r : Record} {stream : RecordStream}
    {objects : MemoryObjects}
    (hnext : x.stream.next w.objects = (some (.ok r), stream, objects)) (cache : OffsetCache) :
    f₀.ReadingOK w₀ { x with stream } ∧
      f₀.Emitted w₀ (deliver { x with stream } r) (cache.update stream.offset) := by
  have hstored : ∀ body store',
      ObjectStore.fetch w.objects x.stream.bucket x.stream.objectKey = (.ok body, store') →
      (w₀.objects.stock f₀.lister.bucket).get? x.summary.key = some body := by
    intro body store' hfetch
    have hbody := MemoryObjects.get?_stock_of_fetch hfetch
    rw [h.bucket, h.objectKey, MemoryObjects.stock_congr hbuckets] at hbody
    exact hbody
  obtain ⟨body, hbody, hrecord, hfollows, hoffset, hsettings, hbucket, hkey⟩ :=
    RecordStream.next_record h.reads (fun _ => hstored) hnext
  have hlabel : stream.offset.key = x.stream.offset.key := by
    rw [hoffset]
    rfl
  have hcount : stream.offset.count = x.stream.offset.count + 1 := by
    rw [hoffset]
    rfl
  obtain ⟨k, hk, hlabels⟩ := h.label
  rw [← hlabel] at hlabels hrecord hfollows
  rw [h.settings] at hrecord
  refine ⟨⟨⟨k, hk, hlabels⟩, hsettings.trans h.settings, hbucket.trans h.bucket,
    hkey.trans h.objectKey, ?_⟩, ?_⟩
  · rintro d -
    exact ⟨body, hbody, by rw [hsettings]; exact hfollows⟩
  · unfold Emitted deliver
    refine ⟨x.summary.key, k, stream.offset.key, body, x.stream.offset.count, r, hbody, hk,
      hlabels, hrecord, rfl, rfl, rfl, rfl, rfl, rfl, ?_, ?_⟩
    · simp only
      rw [Offset.get?_properties, if_pos rfl, hcount]
    · rw [OffsetCache.count_of_update, hcount]

theorem labels_advance (h : LabelsOK f₀ w₀ f w) {x : InFlight} (hx : f.current = some x) :
    (f.advance x w).Leads (fun _ f w => LabelsOK f₀ w₀ f w)
      (fun r f w => LabelsOK f₀ w₀ f w ∧ ∀ d, r = some (.ok d) → f₀.Emitted w₀ d w.cache) := by
  have hbuckets : ∀ out stream objects, x.stream.next w.objects = (out, stream, objects) →
      objects.buckets = w₀.objects.buckets := by
    intro out stream objects hnext
    have hkept := RecordStream.next_keeps (P := fun s : MemoryObjects =>
      s.buckets = w₀.objects.buckets) (fun _ hs => hs) x.stream (fun _ => h.buckets)
      fun _ => (MemoryObjects.buckets_fetch ..).trans h.buckets
    rw [hnext] at hkept
    exact hkept
  refine advance_leads ?_ ?_ ?_
  · intro r stream objects hnext
    obtain ⟨hreading, hemitted⟩ := (h.current x hx).record h.buckets hnext w.cache
    refine ⟨⟨h.setup, hbuckets _ _ _ hnext, h.persisted, h.cache.update _, ?_⟩, ?_⟩
    · rintro y ⟨⟩
      exact hreading
    · rintro d ⟨⟩
      exact hemitted
  · intro e stream objects hnext
    have hafter : LabelsOK f₀ w₀ { f with current := none }
        { w with objects := RecordStream.giveBack stream.state objects } := by
      refine ⟨h.setup, ?_, h.persisted, h.cache, by simp⟩
      exact RecordStream.giveBack_keeps (P := fun s : MemoryObjects =>
        s.buckets = w₀.objects.buckets) (fun _ hs => hs) _ (hbuckets _ _ _ hnext)
    refine afterStreamError_leads ?_ ?_ ?_
    · intro e' _
      exact ⟨hafter.afterStoreError _ e', by simp⟩
    · intro _ _
      exact ⟨⟨hafter.setup, hafter.buckets, hafter.persisted, hafter.cache, hafter.current⟩,
        by simp⟩
    · intro _ _
      exact ⟨hafter.setup, hafter.buckets, hafter.persisted, hafter.cache, hafter.current⟩
  · intro stream objects hnext
    exact ⟨h.setup, hbuckets _ _ _ hnext, h.persisted, h.cache.update _, by simp⟩

theorem labels_turn (h : LabelsOK f₀ w₀ f w) (listed : Bool) :
    (f.turn listed w).Leads (fun _ f w => LabelsOK f₀ w₀ f w)
      (fun r f w => LabelsOK f₀ w₀ f w ∧ ∀ d, r = some (.ok d) → f₀.Emitted w₀ d w.cache) := by
  have hend : LabelsOK f₀ w₀ f w ∧
      ∀ d, (none : Option (Except Error Delivery)) = some (.ok d) → f₀.Emitted w₀ d w.cache :=
    ⟨h, by simp⟩
  refine turn_leads (fun _ => hend) (fun x _ hx => labels_advance h hx) ?_
    (fun l _ _ _ _ => labels_search h l listed) (fun _ _ _ _ _ => hend) ?_
  · intro s _ _ _
    exact labels_take (f := { f with pending := none })
      ⟨h.setup, h.buckets, h.persisted, h.cache, h.current⟩ s
  · intro _ _ _ _ _
    exact ⟨h.setup, h.buckets, h.persisted, h.cache, h.current⟩

/-- **A call keeps the labels**, and the record that it delivers goes under one of them. -/
theorem labels_next (h : LabelsOK f₀ w₀ f w) :
    LabelsOK f₀ w₀ (f.next w).2.1 (f.next w).2.2 ∧
      ∀ d, (f.next w).1 = some (.ok d) → f₀.Emitted w₀ d (f.next w).2.2.cache :=
  pull_leads (P := fun _ _ f w => LabelsOK f₀ w₀ f w)
    (Q := fun r f w => LabelsOK f₀ w₀ f w ∧ ∀ d, r = some (.ok d) → f₀.Emitted w₀ d w.cache)
    (fun _ listed _ _ h => labels_turn h listed) (fun _ _ _ h => ⟨h, by simp⟩) _ h

theorem labels_close (h : LabelsOK f₀ w₀ f w) : LabelsOK f₀ w₀ (f.close w).1 (f.close w).2 := by
  unfold close
  split
  · exact h
  · refine ⟨h.setup, ?_, h.persisted, h.cache.update _, by simp⟩
    exact RecordStream.giveBack_keeps (P := fun s : MemoryObjects =>
      s.buckets = w₀.objects.buckets) (fun _ hs => hs) _ h.buckets

theorem labels_serve (requests : List Request) (h : LabelsOK f₀ w₀ f w) :
    LabelsOK f₀ w₀ (serve next requests f w).2.1 (serve next requests f w).2.2 := by
  induction requests generalizing f w with
  | nil => exact h
  | cons request requests ih =>
    cases request with
    | next => exact ih (labels_next h).1
    | close => exact ih (labels_close h)

/-- **The object, the place and the label of every record**, whatever the stores hold. A record is
one of an object stored under its key, its count is its place there, and the cache has that count
under its label. The label is the identity of the object or the one that the properties name which
are persisted under it, so it is the former if persisted properties name their own identity. -/
theorem labelled {d : Directories} {c : FeedConfig} {failed : KeySet}
    (hf : start d c failed = .ok f) (hcache : w.cache = {}) (requests : List Request)
    {x : Delivery} (hx : ((serve next requests f w).2.1.next (serve next requests f w).2.2).1 =
      some (.ok x)) :
    ∃ key k label body i r,
      (w.objects.stock c.bucket).get? key = some body ∧ f.identify key = some k ∧
      (body.transcript f.settings label).records[i]? = some r ∧
      x.key = keyData key ∧ x.payload = r.payload ∧ x.schema = r.schema ∧
      x.topic = label.topic ∧ x.partition = label.partition ∧ x.identity = label.properties ∧
      x.offset.get? "recordCount" = some (.ofNat (i + 1)) ∧
      (((serve next requests f w).2.1.next (serve next requests f w).2.2).2.2.cache.slot?
        label).bind (·.get? "recordCount") = some (.ofNat (i + 1)) ∧
      (label = k ∨ ∃ p o, w.offsets.stored? k = some p ∧ Offset.ofProperties p = .ok o ∧
        o.key = label) ∧
      (Resumable w.offsets.stored? → label = k) := by
  have hfresh := fresh_start hf
  have hstart : LabelsOK f w f w :=
    ⟨rfl, rfl, rfl, hcache ▸ OffsetCache.labelled_empty, by simp [hfresh.current]⟩
  obtain ⟨key, k, label, body, i, r, hbody, hk, hlabels, hrecord, hkey, hpayload, hschema, htopic,
    hpartition, hidentity, hoffset, hslot⟩ := (labels_next (labels_serve requests hstart)).2 x hx
  rw [bucket_start hf] at hbody
  exact ⟨key, k, label, body, i, r, hbody, hk, hrecord, hkey, hpayload, hschema, htopic,
    hpartition, hidentity, hoffset, hslot, hlabels, hlabels.eq_of_resumable⟩

theorem eq_some_of_recordsOf {α : Type} {g : Delivery → α} {r : Option (Except Error Delivery)}
    {y : α} (h : (recordsOf [r]).map g = [y]) : ∃ x, r = some (.ok x) ∧ g x = y := by
  match r with
  | some (.ok x) => exact ⟨x, rfl, by simpa [recordsOf] using h⟩
  | some (.error e) => simp [recordsOf] at h
  | none => simp [recordsOf] at h

/-- The identity of the second object is persisted under that of the first one. -/
def misfiledWorld : MemoryWorld :=
  { sampleWorld with
    offsets := sampleWorld.offsets.put (⟨"store", "a", none, "a"⟩ : OffsetKey).properties
      (⟨"store", "b", none, "b"⟩ : OffsetKey).properties }

/-- The first chunk of the first object is delivered again after a close, and still goes under the
identity of the second one. -/
theorem labelled_sample : ∃ x,
    ((serve next [.next, .close] sampleFeed misfiledWorld).2.1.next
      (serve next [.next, .close] sampleFeed misfiledWorld).2.2).1 = some (.ok x) ∧
    x.key = keyData "a" ∧ x.identity = (⟨"store", "b", none, "b"⟩ : OffsetKey).properties ∧
    ∃ key k label, sampleFeed.identify key = some k ∧ x.key = keyData key ∧
      x.identity = label.properties ∧
      (label = k ∨ ∃ p o, misfiledWorld.offsets.stored? k = some p ∧
        Offset.ofProperties p = .ok o ∧ o.key = label) := by
  have hrun : (recordsOf [((serve next [.next, .close] sampleFeed misfiledWorld).2.1.next
      (serve next [.next, .close] sampleFeed misfiledWorld).2.2).1]).map
        (fun x => (x.key, x.identity)) =
      [(keyData "a", (⟨"store", "b", none, "b"⟩ : OffsetKey).properties)] := by cbv
  obtain ⟨x, hx, hmap⟩ := eq_some_of_recordsOf hrun
  obtain ⟨key, k, label, -, -, -, -, hk, -, hkey, -, -, -, -, hidentity, -, -, hlabel, -⟩ :=
    labelled start_sampleConfig rfl [.next, .close] hx
  obtain ⟨ha, hb⟩ := Prod.mk.inj hmap
  exact ⟨x, hx, ha, hb, key, k, label, hk, hkey, hidentity, hlabel⟩

/-- **The label is not always the identity of the object.** The first chunk of the first object goes
under the identity of the second one, and the cache counts nothing under its own. -/
theorem mislabelled : ∃ x, (sampleFeed.next misfiledWorld).1 = some (.ok x) ∧
    x.key = keyData "a" ∧ sampleFeed.identify "a" = some ⟨"store", "a", none, "a"⟩ ∧
    x.identity ≠ (⟨"store", "a", none, "a"⟩ : OffsetKey).properties ∧
    x.offset.get? "recordCount" = some (.ofNat 1) ∧
    ((sampleFeed.next misfiledWorld).2.2.cache.slot? ⟨"store", "a", none, "a"⟩).bind
      (·.get? "recordCount") = none := by
  have hrun : (recordsOf [(sampleFeed.next misfiledWorld).1]).map
      (fun x => (x.key, x.identity, x.offset)) =
      [(keyData "a", (⟨"store", "b", none, "b"⟩ : OffsetKey).properties,
        ({ key := ⟨"store", "b", none, "b"⟩, count := 1 } : Offset).properties)] := by cbv
  have hslot : (sampleFeed.next misfiledWorld).2.2.cache.slot? ⟨"store", "a", none, "a"⟩ =
      some (⟨"store", "b", none, "b"⟩ : OffsetKey).properties := by cbv
  obtain ⟨x, hx, hmap⟩ := eq_some_of_recordsOf hrun
  simp only [Prod.mk.injEq] at hmap
  obtain ⟨hkey, hidentity, hoffset⟩ := hmap
  refine ⟨x, hx, hkey, by cbv, ?_, ?_, ?_⟩
  · rw [hidentity]
    exact fun hsame => absurd (OffsetKey.properties_injective hsame) (by decide)
  · rw [hoffset, Offset.get?_properties, if_pos rfl]
  · rw [hslot, Option.bind_some, OffsetKey.get?_properties]
    rfl

end Feed

end ObjectFeed
