import ObjectFeed.Proofs.Exclusion
import ObjectFeed.Proofs.Labels

/-!
# The count of a malformed object

When an object turns out to be malformed, the cache still counts what has been delivered of it, and
no less than what it counted when the object was last opened. A later attempt would pass over just
these records.

* `OffsetCache.Counts`: the count that the cache has under an identity.
* `Feed.LastOpened`: where an object was last opened, and what was fetched then.
* `RecordStream.next_malformed`: what an object has been read of when it turns out to be malformed.
* `Feed.Tallied`: what the cache counts of the object that is being read; `Feed.tallied_turn`: a
  turn keeps that.
* `Feed.excluded_final`: **excluded keys are final and exact, and their counts stay.**
-/

namespace ObjectFeed

/-- The cache has a count under an identity: the number itself, or what is read as it. -/
def OffsetCache.Counts (c : OffsetCache) (k : OffsetKey) (n : Nat) : Prop :=
  ∃ p, c.slot? k = some p ∧
    (p.get? "recordCount" = some (.ofNat n) ∨ Offset.countOf p = .ok n)

theorem OffsetCache.Tracks.counts {c : OffsetCache} {s : RecordStream} (h : c.Tracks s) :
    c.Counts s.offset.key s.offset.count := by
  rcases h with ⟨p, hp, ho⟩ | ⟨-, hp⟩
  · obtain ⟨-, -, -, -, hcount, -⟩ := Offset.ofProperties_eq_ok ho
    exact ⟨p, hp, .inr hcount⟩
  · refine ⟨_, hp, .inl ?_⟩
    rw [Offset.get?_properties, if_pos rfl]

/-- All properties that were looked up name the identity under which they are stored. -/
def AuditedOffsets.NamesKeys {τ : Type} (s : AuditedOffsets τ) : Prop :=
  ∀ l ∈ s.lookups, ∀ (k : OffsetKey) (p : Properties) (o : Offset), l.identity = k.properties →
    l.answer = .ok (some p) → Offset.ofProperties p = .ok o → o.key = k

namespace OffsetCache

/-- All that is known of an identity names it. -/
abbrev Named (c : OffsetCache) : Prop := c.Labelled fun _ => none

theorem Named.key_eq {c : OffsetCache} (h : c.Named) {k : OffsetKey} {p : Properties} {o : Offset}
    (hp : c.slot? k = some p) (ho : Offset.ofProperties p = .ok o) : o.key = k := by
  rcases h k p o hp ho with hk | ⟨p', o', hnone, -⟩
  · exact hk
  · cases hnone

variable {τ : Type} [OffsetStore τ] {c c' : OffsetCache} {t t' : AuditedOffsets τ} {k : OffsetKey}
variable {out : Except Error Offset}

/-- What was looked up before a look-up has been looked up after it. -/
theorem namesKeys_of_get (hget : c.get t k = (out, c', t')) (h : t'.NamesKeys) : t.NamesKeys := by
  have hkept := c.get_keeps (P := fun t' : AuditedOffsets τ => t'.NamesKeys → t.NamesKeys)
    (t := t) (k := k) id fun hnames l hl => hnames l (by
      rw [AuditedOffsets.lookups_lookup]
      exact List.mem_append_left _ hl)
  rw [hget] at hkept
  exact hkept h

/-- If the properties that are looked up name their identity, then all that is known does, and an
offset that is found is the one of its identity. -/
theorem named_of_get (h : c.Named) (hget : c.get t k = (out, c', t')) (hnames : t'.NamesKeys) :
    c'.Named ∧ ∀ o, out = .ok o →
      o.key = k ∧ ∃ p, c'.slot? k = some p ∧ Offset.ofProperties p = .ok o := by
  cases hslot : c.slot? k with
  | some p =>
    rw [get_of_known hslot] at hget
    obtain ⟨rfl, hrest⟩ := Prod.mk.inj hget
    obtain ⟨rfl, -⟩ := Prod.mk.inj hrest
    refine ⟨h, fun o ho => ?_⟩
    have ho := mapError_eq_ok.1 ho
    exact ⟨h.key_eq hslot ho, p, hslot, ho⟩
  | none =>
    obtain ⟨⟨answer, t₁⟩, hl⟩ : ∃ out, OffsetStore.lookup t k.properties = out := ⟨_, rfl⟩
    cases answer with
    | error e =>
      rw [get_of_failure hslot hl] at hget
      obtain ⟨rfl, hrest⟩ := Prod.mk.inj hget
      obtain ⟨rfl, -⟩ := Prod.mk.inj hrest
      exact ⟨h, fun o ho => by cases ho⟩
    | ok found =>
      rw [get_of_found hslot hl] at hget
      obtain ⟨rfl, hrest⟩ := Prod.mk.inj hget
      obtain ⟨rfl, rfl⟩ := Prod.mk.inj hrest
      -- what has become known is the identity itself or was looked up just now
      have hlogged : (⟨k.properties, .ok found⟩ : Lookup) ∈ t₁.lookups := by
        have hlookups := t.lookups_lookup k.properties
        rw [hl] at hlookups
        rw [hlookups]
        exact List.mem_append_right _ (List.mem_singleton.2 rfl)
      have hinitial : ∀ o, Offset.ofProperties (initial k found) = .ok o → o.key = k := by
        have hidentity : ∀ o, Offset.ofProperties k.properties = .ok o → o.key = k := by
          intro o ho
          rw [Offset.ofProperties_identity] at ho
          cases ho
          rfl
        intro o ho
        cases found with
        | none => exact hidentity o ho
        | some p =>
          unfold initial at ho
          simp only at ho
          split at ho
          · exact hidentity o ho
          · exact hnames _ hlogged k p o rfl rfl ho
      refine ⟨h.fill fun o ho => .inl (hinitial o ho), fun o ho => ?_⟩
      have ho := mapError_eq_ok.1 ho
      exact ⟨hinitial o ho, _, by rw [slot?_fill, if_pos rfl], ho⟩

end OffsetCache

namespace RecordStream

variable {σ : Type} [ObjectStore σ] {s s' : RecordStream} {store store' : σ}

/-- Opening an object does not change the count that it resumes from. -/
theorem resumeFrom_next (h : s.state = .pending → s.resumeFrom = s.offset.count) (store : σ) :
    (s.next store).2.1.resumeFrom = s.resumeFrom := by
  have hread : ∀ (s : RecordStream) (store : σ), (s.read store).2.1.resumeFrom = s.resumeFrom := by
    intro s store
    unfold read
    split
    · generalize Decoder.pull _ _ = out
      obtain ⟨p, n⟩ := out
      cases p <;> rfl
    · rfl
  have hopen : (s.open store).2.1.resumeFrom = s.resumeFrom := by
    unfold RecordStream.open
    split
    · rename_i hstate
      generalize ObjectStore.fetch store s.bucket s.objectKey = out
      obtain ⟨answer, store'⟩ := out
      cases answer with
      | error e => rfl
      | ok body =>
        simp only
        split
        · rfl
        · exact (h hstate).symm
    · rfl
  unfold next
  generalize s.open store = out at hopen
  obtain ⟨failure, s₁, store₁⟩ := out
  cases failure with
  | some e => exact hopen
  | none => exact (hread s₁ store₁).trans hopen

/-- An open stream finds its object malformed after all the records, and has decoded them then. -/
theorem read_malformed {t : Transcript} {d : Decoder} {o : Offset} (hd : s.state = .reading d)
    (ht : d.transcript = { t with records := t.records.drop s.offset.count })
    (hc : s.offset.count ≤ t.records.length) (ho : { s.offset with count := o.count } = o)
    (hn : o.count = max s.offset.count s.resumeFrom) {key : String} {e : DecodeError}
    (h : s.read store = (some (.error (.decode key e)), s', store')) :
    t.failure = some e ∧ t.records.length ≤ o.count := by
  rcases read_outcome hd ht hc ho hn store with ⟨hlt, y, d', hy, -⟩ | ⟨hle, y, hy, -⟩
  · rw [h] at hy
    simp at hy
  · rw [h] at hy
    cases hfailure : t.failure with
    | none => simp [hfailure] at hy
    | some e' =>
      obtain ⟨-, rfl⟩ : key = o.key.objectKey ∧ e = e' := by
        simpa [hfailure] using congrArg Prod.fst hy
      exact ⟨rfl, hle⟩

/-- **What an object has been read of when it turns out to be malformed**: all its records, of which
at least as many count as were counted before. -/
theorem next_malformed {Stored : Body → Prop} (h : s.Reads Stored)
    (hresumes : s.state = .pending → s.resumeFrom = s.offset.count)
    (hfetch : s.state = .pending → ∀ body store',
      ObjectStore.fetch store s.bucket s.objectKey = (.ok body, store') → Stored body)
    {key : String} {e : DecodeError}
    (hn : s.next store = (some (.error (.decode key e)), s', store')) :
    ∃ body, Stored body ∧ (body.transcript s.settings s.offset.key).failure = some e ∧
      s.offset.count =
        max s.resumeFrom (body.transcript s.settings s.offset.key).records.length := by
  cases hstate : s.state with
  | closed => simp [next, RecordStream.open, read, hstate] at hn
  | reading d =>
    obtain ⟨body, hbody, hfollows⟩ := h d hstate
    obtain ⟨hr, hc, ht⟩ : _ ∧ _ ∧ _ := by simpa [Follows, hstate] using hfollows
    have hsame : s.next store = s.read store := by simp [next, RecordStream.open, hstate]
    rw [hsame] at hn
    obtain ⟨hfailure, hle⟩ := read_malformed hstate ht hc rfl (Nat.max_eq_left hr).symm hn
    exact ⟨body, hbody, hfailure, by omega⟩
  | pending =>
    have hfrom := hresumes hstate
    obtain ⟨⟨answer, store₁⟩, hanswer⟩ :
      ∃ out, ObjectStore.fetch store s.bucket s.objectKey = out := ⟨_, rfl⟩
    cases answer with
    | error e' => simp [next, RecordStream.open, hstate, hanswer] at hn
    | ok body =>
      refine ⟨body, hfetch hstate body store₁ hanswer, ?_⟩
      rcases next_of_pending hstate hanswer with ⟨e', ht, hnext⟩ | ⟨d, ht, hnext⟩
      · rw [hn] at hnext
        obtain ⟨-, rfl⟩ : key = s.offset.key.objectKey ∧ e = e' := by
          simpa using congrArg Prod.fst hnext
        rw [ht]
        exact ⟨rfl, by simp [hfrom]⟩
      · -- the open stream has decoded nothing yet and passes over what the offset counted
        let s₀ : RecordStream := { s with
          state := .reading d, resumeFrom := s.offset.count, offset := s.offset.rewind }
        rw [hnext] at hn
        obtain ⟨hfailure, hle⟩ := read_malformed (s := s₀) (o := s.offset)
          (t := body.transcript s.settings s.offset.key) rfl ht (Nat.zero_le _) rfl
          (Nat.zero_max _).symm hn
        exact ⟨hfailure, by omega⟩

end RecordStream

namespace Feed

section Opened

variable {σ τ : Type} [ObjectStore σ]

/-- The moment's turn opens the object with the key, and the store hands the body out. -/
def Moment.Opens (m : Moment σ τ) (key : String) (body : Body) : Prop :=
  m.feed.terminated = false ∧ ∃ x store, m.feed.current = some x ∧ x.summary.key = key ∧
    x.stream.state = .pending ∧
    ObjectStore.fetch m.world.objects m.feed.lister.bucket key = (.ok body, store)

omit [ObjectStore σ] in
/-- The object with the key is open in the moment. -/
def Moment.Reads (m : Moment σ τ) (key : String) : Prop :=
  ∃ x d, m.feed.current = some x ∧ x.summary.key = key ∧ x.stream.state = .reading d

/-- The object with the key was last opened in the moment `m`, and has been open since. -/
def LastOpened (ms : List (Moment σ τ)) (m : Moment σ τ) (key : String) (body : Body) : Prop :=
  ∃ earlier since, ms = earlier ++ m :: since ∧ m.Opens key body ∧ ∀ m' ∈ since, m'.Reads key

variable {ms : List (Moment σ τ)} {m m' : Moment σ τ} {key : String} {body : Body}

theorem LastOpened.concat (h : LastOpened ms m key body) (hm : m'.Reads key) :
    LastOpened (ms ++ [m']) m key body := by
  obtain ⟨earlier, since, rfl, hopens, hreads⟩ := h
  refine ⟨earlier, since ++ [m'], by simp, hopens, ?_⟩
  intro m'' hm''
  rcases List.mem_append.1 hm'' with h | h
  · exact hreads m'' h
  · rw [List.mem_singleton.1 h]
    exact hm

theorem Moment.Opens.last (h : m.Opens key body) (ms : List (Moment σ τ)) :
    LastOpened (ms ++ [m]) m key body :=
  ⟨ms, [], rfl, h, by simp⟩

end Opened

section Tallied

variable {σ τ : Type} [ObjectStore σ] [OffsetStore τ]

/-- What was fetched when the object with the key was last opened, and that the cache counted `n` of
its records then. -/
def Fetched (ms : List (Moment σ τ)) (key : String) (k : OffsetKey) (n : Nat) (body : Body) :
    Prop :=
  ∃ m, LastOpened ms m key body ∧ m.world.cache.Counts k n

/-- The object that is being read goes under its identity, the cache counts what was delivered, and
its stream reads what was fetched when it was last opened. -/
structure TalliedIn (f₀ : Feed) (ms : List (Moment σ τ)) (cache : OffsetCache) (x : InFlight) :
    Prop where
  identity : f₀.identify x.summary.key = some x.stream.offset.key
  settings : x.stream.settings = f₀.settings
  bucket : x.stream.bucket = f₀.lister.bucket
  objectKey : x.stream.objectKey = x.summary.key
  tracks : cache.Tracks x.stream
  resumes : x.stream.state = .pending → x.stream.resumeFrom = x.stream.offset.count
  reads : x.stream.Reads
    (Fetched ms x.summary.key x.stream.offset.key x.stream.resumeFrom)

/-- The cache belongs together with the object that is being read. -/
structure Tallied (f₀ : Feed) (ms : List (Moment σ τ)) (f : Feed) (w : World σ τ) : Prop where
  setup : f.setup = f₀.setup
  named : w.cache.Named
  current : ∀ x, f.current = some x → TalliedIn f₀ ms w.cache x

variable {f₀ f : Feed} {w : World σ τ} {ms : List (Moment σ τ)}

omit [OffsetStore τ] in
theorem Tallied.of_idle (hs : f.setup = f₀.setup) (hw : w.cache.Named) (hx : f.current = none) :
    Tallied f₀ ms f w :=
  ⟨hs, hw, by simp [hx]⟩

omit [OffsetStore τ] in
/-- While it is open, an object was last opened when it was before. -/
theorem TalliedIn.reads_concat {x : InFlight} (h : TalliedIn f₀ ms w.cache x)
    (hx : f.current = some x) (listed : Bool) : x.stream.Reads
      (Fetched (ms ++ [⟨listed, f, w⟩]) x.summary.key x.stream.offset.key x.stream.resumeFrom) := by
  intro d hd
  obtain ⟨body, ⟨m, hopened, hcounts⟩, hfollows⟩ := h.reads d hd
  exact ⟨body, ⟨m, hopened.concat ⟨x, d, hx, rfl, hd⟩, hcounts⟩, hfollows⟩

omit [OffsetStore τ] in
/-- A body that is handed out in a moment was fetched when the object was last opened. -/
theorem TalliedIn.fetched {x : InFlight} (h : TalliedIn f₀ ms w.cache x) (hs : f.setup = f₀.setup)
    (hterm : f.terminated = false) (hx : f.current = some x) (listed : Bool)
    (hstate : x.stream.state = .pending) (body : Body) (store : σ)
    (hfetch : ObjectStore.fetch w.objects x.stream.bucket x.stream.objectKey = (.ok body, store)) :
    Fetched (ms ++ [⟨listed, f, w⟩]) x.summary.key x.stream.offset.key x.stream.resumeFrom
      body := by
  rw [h.bucket, h.objectKey, ← lister_congr hs] at hfetch
  have hcounts := h.tracks.counts
  rw [← h.resumes hstate] at hcounts
  exact ⟨_, Moment.Opens.last ⟨hterm, x, store, hx, rfl, hstate, hfetch⟩ ms, hcounts⟩

omit [OffsetStore τ] in
/-- A record is counted, in the stream and in the cache. -/
theorem TalliedIn.record {x : InFlight} (h : TalliedIn f₀ ms w.cache x) (hs : f.setup = f₀.setup)
    (hterm : f.terminated = false) (hx : f.current = some x) (listed : Bool) {r : Record}
    {stream : RecordStream} {objects : σ}
    (hnext : x.stream.next w.objects = (some (.ok r), stream, objects)) :
    TalliedIn f₀ (ms ++ [⟨listed, f, w⟩]) (w.cache.update stream.offset) { x with stream } := by
  obtain ⟨body, hbody, -, hfollows, hoffset, hsettings, hbucket, hobjectKey⟩ :=
    RecordStream.next_record (h.reads_concat hx listed) (h.fetched hs hterm hx listed) hnext
  have hkey : stream.offset.key = x.stream.offset.key := by
    rw [hoffset]
    rfl
  have hresumes := RecordStream.resumeFrom_next h.resumes w.objects
  have hopen := (x.stream.state_next w.objects).1
  rw [hnext] at hresumes hopen
  have hstate : ∃ d, stream.state = .reading d := by
    cases hstate : stream.state with
    | pending => exact absurd hstate hopen
    | reading d => exact ⟨d, rfl⟩
    | closed => simp [RecordStream.Follows, hstate] at hfollows
  have hbefore : { stream.offset with count := x.stream.offset.count } = x.stream.offset := by
    rw [hoffset]
    rfl
  refine ⟨?_, hsettings.trans h.settings, hbucket.trans h.bucket, hobjectKey.trans h.objectKey, ?_,
    fun hpending => absurd hpending hopen, ?_⟩
  · rw [hkey]
    exact h.identity
  · refine .inr ⟨hstate, OffsetCache.slot?_update_self (n := x.stream.offset.count) ?_⟩
    rw [hbefore, hkey]
    rcases h.tracks with htracks | ⟨-, hslot⟩
    · exact .inl htracks
    · exact .inr hslot
  · intro d hd
    rw [show ({ x with stream } : InFlight).stream.offset.key = x.stream.offset.key from hkey,
      show ({ x with stream } : InFlight).stream.resumeFrom = x.stream.resumeFrom from hresumes]
    rw [← hsettings] at hfollows
    exact ⟨body, hbody, hfollows⟩

end Tallied

section Turns

variable {σ τ : Type} [ObjectStore σ] [OffsetStore τ] {f₀ f : Feed}
variable {w : World σ (AuditedOffsets τ)} {ms : List (Moment σ (AuditedOffsets τ))}

omit [OffsetStore τ] in
theorem Tallied.afterStoreError (h : Tallied f₀ ms f w) (s : Summary) (e : StoreError) :
    Tallied f₀ ms (f.afterStoreError s e) w := by
  unfold Feed.afterStoreError
  split
  · exact ⟨h.setup, h.named, h.current⟩
  · exact h

/-- An object that is taken up goes under its own identity if all properties that are looked up name
the identity under which they are stored. -/
theorem tallied_take (h : w.offsets.NamesKeys → f.setup = f₀.setup ∧ w.cache.Named)
    (hx : f.current = none) (s : Summary) (ms : List (Moment σ (AuditedOffsets τ))) :
    (f.take s w).Keeps fun g w => w.offsets.NamesKeys → Tallied f₀ ms g w := by
  have hlooked : ∀ k out cache offsets, w.cache.get w.offsets k = (out, cache, offsets) →
      offsets.NamesKeys → f.setup = f₀.setup ∧ cache.Named ∧ ∀ o, out = .ok o →
        o.key = k ∧ ∃ p, cache.slot? k = some p ∧ Offset.ofProperties p = .ok o := by
    intro k out cache offsets hget hnames
    obtain ⟨hsetup, hnamed⟩ := h (OffsetCache.namesKeys_of_get hget hnames)
    exact ⟨hsetup, OffsetCache.named_of_get hnamed hget hnames⟩
  refine take_leads ?_ ?_ ?_ ?_
  · intro _ hnames
    exact .of_idle (h hnames).1 (h hnames).2 hx
  · intro k o cache offsets hidentity hget hnames
    obtain ⟨hsetup, hnamed, hfound⟩ := hlooked _ _ _ _ hget hnames
    obtain ⟨hkey, p, hp, ho⟩ := hfound o rfl
    refine ⟨hsetup, hnamed, ?_⟩
    rintro x ⟨⟩
    refine ⟨?_, settings_congr hsetup, ?_, rfl, .inl ⟨p, ?_, ho⟩, fun _ => rfl, ?_⟩
    · rw [← identify_congr hsetup]
      exact hidentity.trans (congrArg some hkey.symm)
    · exact congrArg Lister.bucket (lister_congr hsetup)
    · rw [← hkey] at hp
      exact hp
    · rintro d ⟨⟩
  · intro k e cache offsets _ hget hnames
    obtain ⟨hsetup, hnamed, -⟩ := hlooked _ _ _ _ hget hnames
    exact (Tallied.of_idle hsetup hnamed hx).afterStoreError s e
  · intro k e cache offsets _ hget hnames
    obtain ⟨hsetup, hnamed, -⟩ := hlooked _ _ _ _ hget hnames
    exact .of_idle hsetup hnamed hx

theorem tallied_search (h : w.offsets.NamesKeys → f.setup = f₀.setup ∧ w.cache.Named)
    (hx : f.current = none) (l : Listing) (listed : Bool)
    (ms : List (Moment σ (AuditedOffsets τ))) :
    (f.search l listed w).Keeps fun g w => w.offsets.NamesKeys → Tallied f₀ ms g w := by
  have hafter : ∀ listing lastKey objects, w.offsets.NamesKeys →
      Tallied f₀ ms { f with listing, lastKey } { w with objects } :=
    fun _ _ _ hnames => .of_idle (h hnames).1 (h hnames).2 hx
  refine search_leads ?_ (fun _ _ _ => hafter _ _ _) (fun _ _ _ => hafter _ _ _)
    fun _ _ _ _ => hafter _ _ _
  intro s l' objects _
  exact ⟨fun _ => tallied_take (f := { f with listing := some l', lastKey := some s.key })
    (w := { w with objects }) h hx s ms, fun _ => hafter _ _ _⟩

omit [OffsetStore τ] in
theorem tallied_advance (h : w.offsets.NamesKeys → Tallied f₀ ms f w) (hterm : f.terminated = false)
    {x : InFlight} (hx : f.current = some x) (listed : Bool) :
    (f.advance x w).Keeps fun g w' =>
      w'.offsets.NamesKeys → Tallied f₀ (ms ++ [⟨listed, f, w⟩]) g w' := by
  refine advance_leads ?_ ?_ ?_
  · intro r stream objects hnext hnames
    have hbefore := h hnames
    refine ⟨hbefore.setup, hbefore.named.update _, ?_⟩
    rintro y ⟨⟩
    exact (hbefore.current x hx).record hbefore.setup hterm hx listed hnext
  · intro e stream objects _
    have hdropped : w.offsets.NamesKeys →
        Tallied f₀ (ms ++ [⟨listed, f, w⟩]) { f with current := none }
          { w with objects := RecordStream.giveBack stream.state objects } :=
      fun hnames => .of_idle (h hnames).setup (h hnames).named rfl
    refine afterStreamError_leads ?_ ?_ ?_
    · intro e' _ hnames
      exact (hdropped hnames).afterStoreError _ e'
    · intro _ _ hnames
      exact .of_idle (hdropped hnames).setup (hdropped hnames).named rfl
    · intro _ _ hnames
      exact .of_idle (hdropped hnames).setup (hdropped hnames).named rfl
  · intro stream objects _ hnames
    exact .of_idle (h hnames).setup ((h hnames).named.update _) rfl

/-- **A turn keeps the cache and the object that is being read together.** -/
theorem tallied_turn (h : w.offsets.NamesKeys → Tallied f₀ ms f w) (listed : Bool) :
    (f.turn listed w).Keeps fun g w' =>
      w'.offsets.NamesKeys → Tallied f₀ (ms ++ [⟨listed, f, w⟩]) g w' := by
  have hidle : w.offsets.NamesKeys → f.setup = f₀.setup ∧ w.cache.Named :=
    fun hnames => ⟨(h hnames).setup, (h hnames).named⟩
  refine turn_leads ?_ (fun x hterm hx => tallied_advance h hterm hx listed)
    (fun s _ hx _ => tallied_take (f := { f with pending := none }) hidle hx s _)
    (fun l _ hx _ _ => tallied_search hidle hx l listed _) ?_ ?_
  · intro _ hnames
    refine ⟨(h hnames).setup, (h hnames).named, fun x hx => ?_⟩
    have hbefore := (h hnames).current x hx
    exact ⟨hbefore.identity, hbefore.settings, hbefore.bucket, hbefore.objectKey, hbefore.tracks,
      hbefore.resumes, hbefore.reads_concat hx listed⟩
  · exact fun _ hx _ _ _ hnames => .of_idle (h hnames).setup (h hnames).named hx
  · exact fun _ hx _ _ _ hnames => .of_idle (h hnames).setup (h hnames).named hx

omit [OffsetStore τ] in
theorem tallied_close (h : w.offsets.NamesKeys → Tallied f₀ ms f w) :
    (f.close w).2.offsets.NamesKeys → Tallied f₀ ms (f.close w).1 (f.close w).2 := by
  rcases close_cases f w with ⟨-, hclose⟩ | ⟨x, hx, hclose⟩
  · rw [hclose]
    exact h
  · rw [hclose]
    exact fun hnames => .of_idle (h hnames).setup ((h hnames).named.update _) rfl

theorem tallied_path {f' : Feed} {w' : World σ (AuditedOffsets τ)}
    {ms : List (Moment σ (AuditedOffsets τ))} (hpath : Path f w ms f' w')
    (h : Tallied f [] f w) : w'.offsets.NamesKeys → Tallied f ms f' w' := by
  have hgrown := hpath.grows (I := fun ms g w => w.offsets.NamesKeys → Tallied f ms g w)
    (fun _ _ listed _ hg => tallied_turn hg listed)
    (fun _ _ _ _ hg hnames => ⟨(hg hnames).setup, (hg hnames).named, (hg hnames).current⟩)
    (fun _ _ _ hg => tallied_close hg)
    (show w.offsets.NamesKeys → Tallied f [] f w from fun _ => h)
  exact hgrown

/-- **When an object turns out to be malformed**, the cache counts what it counted when the object
was last opened, or all the records before the failure if these are more. -/
theorem counts_of_raises {m : Moment σ (AuditedOffsets τ)} {key : String}
    (h : Tallied f₀ ms m.feed m.world) (htol : m.feed.tolerance = .all) (hraises : m.Raises key) :
    ∃ k m₀ n body e, f₀.identify key = some k ∧ LastOpened (ms ++ [m]) m₀ key body ∧
      m₀.world.cache.Counts k n ∧ m.met = some (.decode key e) ∧
      (body.transcript f₀.settings k).failure = some e ∧
      m.turn.world.cache.Counts k (max n (body.transcript f₀.settings k).records.length) := by
  have hcache : m.turn.world.cache = m.world.cache := by
    rcases raises_cases m with ⟨x, objects, -, -, -, hturn⟩ | ⟨-, hnone⟩
    · rw [hturn]
      rfl
    · exact absurd hraises (hnone htol key)
  obtain ⟨x, key', e, hx, rfl, hmet⟩ := hraises
  have hterm : m.feed.terminated = false := by
    cases hterm : m.feed.terminated with
    | false => rfl
    | true => simp [Moment.met, hterm] at hmet
  have hx' := h.current x hx
  have herror : x.error? m.world = some (.decode key' e) := by
    rw [← hmet]
    simp [Moment.met, hterm, hx]
  obtain ⟨stream, objects, hnext⟩ : ∃ stream objects,
      x.stream.next m.world.objects = (some (.error (.decode key' e)), stream, objects) := by
    obtain ⟨⟨r, stream, objects⟩, hnext⟩ : ∃ out, x.stream.next m.world.objects = out := ⟨_, rfl⟩
    simp only [InFlight.error?, hnext] at herror
    rcases r with _ | e' | r
    · cases herror
    · exact ⟨stream, objects, by rw [hnext, Option.some.inj herror]⟩
    · cases herror
  obtain ⟨body, ⟨m₀, hopened, hcounts⟩, hfailure, hcount⟩ :=
    RecordStream.next_malformed (hx'.reads_concat hx m.listed) hx'.resumes
      (hx'.fetched h.setup hterm hx m.listed) hnext
  have hkey : key' = x.summary.key := by
    rcases RecordStream.error_of_next hnext with ⟨e', store, he, -⟩ | ⟨e', he⟩
    · cases he
    · rw [← identify_objectKey hx'.identity]
      exact (Error.decode.inj he).1
  rw [hx'.settings] at hfailure hcount
  refine ⟨x.stream.offset.key, m₀, x.stream.resumeFrom, body, e, hx'.identity, hopened, hcounts,
    ?_, hfailure, ?_⟩
  · rw [← hkey]
    exact hmet
  · rw [hcache, ← hcount]
    exact hx'.tracks.counts

end Turns

theorem failed_start {d : Directories} {c : FeedConfig} {failed : KeySet} {f : Feed}
    (hf : start d c failed = .ok f) : f.filter.failed = failed := by
  obtain ⟨template, settings, -, -, rfl⟩ := start_eq_ok_iff.1 hf
  rfl

section Final

variable {σ τ : Type} [ObjectStore σ] [OffsetStore τ] (limit : Feed → AuditedWorld σ τ → Nat)

/-- **Excluded keys are final and exact, and their counts stay**, whatever the stores answer. To the
keys that it is given a feed adds those of objects that turn out to be malformed, if it tolerates
that. An excluded key is neither fetched nor looked up any more. Its count in the cache is the one
from which the object was opened last, or that of the records decoded since, if that is more. -/
theorem excluded_final {d : Directories} {c : FeedConfig} {failed : KeySet} {f : Feed}
    (hf : start d c failed = .ok f) {w : AuditedWorld σ τ} (hcache : w.cache = {})
    (as more : List Act) :
    let run := acts limit as f w
    let later := acts limit more run.2.1 run.2.2
    f.filter.failed = failed ∧
      (∀ key, later.2.1.filter.failed.contains key = true ↔
        run.2.1.filter.failed.contains key = true ∨
          c.tolerance = .all ∧ ∃ m ∈ moments limit more run.2.1 run.2.2, m.Raises key) ∧
      (∀ key, run.2.1.filter.failed.contains key = true → run.2.2.Spares key later.2.2) ∧
      (∀ m ∈ moments limit as f w, ∀ key, m.feed.filter.failed.contains key = true →
        m.world.Spares key run.2.2) ∧
      ∀ before m after key, moments limit as f w = before ++ m :: after → c.tolerance = .all →
        m.Raises key → m.turn.feed.filter.failed.contains key = true ∧
          (m.world.offsets.NamesKeys → ∃ k m₀ n body e,
            f.identify key = some k ∧ LastOpened (before ++ [m]) m₀ key body ∧
            m₀.world.cache.Counts k n ∧ m.met = some (.decode key e) ∧
            (body.transcript f.settings k).failure = some e ∧
            m.turn.world.cache.Counts k
              (max n (body.transcript f.settings k).records.length)) := by
  intro run later
  have hfresh := fresh_start hf
  have htol := tolerance_start hf
  have hpath : Path f w (moments limit as f w) run.2.1 run.2.2 := acts_path limit as f w
  have hmore : Path run.2.1 run.2.2 (moments limit more run.2.1 run.2.2) later.2.1 later.2.2 :=
    acts_path limit more run.2.1 run.2.2
  have hrun : run.2.1.tolerance = c.tolerance := (tolerance_congr hpath.setup_eq.1).trans htol
  have hexcludes : f.Excludes :=
    ⟨.inl hfresh.current, by simp [hfresh.pending], by simp [hfresh.current]⟩
  obtain ⟨hend, hmoments⟩ := barred_path hpath hexcludes
  refine ⟨failed_start hf, ?_, ?_, ?_, ?_⟩
  · intro key
    rw [failed_path hmore, hrun]
  · intro key hkey
    exact (barred_path hmore hend.excludes).1.spares key hkey
  · intro m hm key hkey
    obtain ⟨before, after, hsplit⟩ := List.append_of_mem hm
    rw [hsplit] at hpath
    exact (barred_path hpath.split.2 (hmoments m hm)).1.spares key hkey
  · intro before m after key hsplit hall hraises
    rw [hsplit] at hpath
    have hm : m.feed.tolerance = .all := by
      rw [tolerance_congr (hpath.setup_eq.2 m (by simp)), htol, hall]
    refine ⟨(failed_turn m key).2 (.inr ⟨hm, hraises⟩), fun hnames => ?_⟩
    have hstart : Tallied f [] f w := by
      refine .of_idle rfl ?_ hfresh.current
      rw [hcache]
      exact OffsetCache.labelled_empty
    exact counts_of_raises (tallied_path hpath.split.1 hstart hnames) hm hraises

end Final

/-- The turns of a poll that meets the malformed object. -/
def sampleMoments : List (Moment (Audited MemoryObjects) (AuditedOffsets MemoryOffsets)) :=
  moments (fun f w => f.turnLimit w.unaudited) [.poll 10] sampleFeed sampleWorld.audited

/-- The third object has one record before the failing read, in the thirteenth turn. -/
theorem excluded_final_sample :
    let limit := fun (f : Feed) (w : AuditedWorld MemoryObjects MemoryOffsets) =>
      f.turnLimit w.unaudited
    let run := acts limit [.poll 10] sampleFeed sampleWorld.audited
    run.2.1.filter.failed.contains "c" = true ∧
      run.2.2.Spares "c" (acts limit [.close, .next, .pollBatch] run.2.1 run.2.2).2.2 ∧
      ∃ m, sampleMoments[12]? = some m ∧ m.Raises "c" ∧ ∃ k n body e,
        sampleFeed.identify "c" = some k ∧ m.met = some (.decode "c" e) ∧
        (Body.transcript sampleFeed.settings k body).failure = some e ∧
        m.turn.world.cache.Counts k
          (max n (body.transcript sampleFeed.settings k).records.length) := by
  intro limit run
  obtain ⟨-, -, hspares, -, hcounts⟩ := excluded_final limit start_sampleConfig
    (w := sampleWorld.audited) rfl [.poll 10] [.close, .next, .pollBatch]
  have hfailed : (acts (fun f w => f.turnLimit w.unaudited) [.poll 10] sampleFeed
      sampleWorld.audited).2.1.filter.failed.contains "c" = true := by cbv
  have hmet : sampleMoments[12]?.bind Moment.met = some (.decode "c" (.readBytes "reset")) := by cbv
  have hreading : sampleMoments[12]?.bind (fun m => m.feed.current.map (·.summary.key)) =
      some "c" := by cbv
  have hlookups : sampleMoments[12]?.map (fun m => m.world.offsets.lookups.all Lookup.isVacant) =
      some true := by cbv
  obtain ⟨m, hm, hmet⟩ := Option.bind_eq_some_iff.1 hmet
  rw [hm, Option.bind_some] at hreading
  obtain ⟨x, hx, hkey⟩ := Option.map_eq_some_iff.1 hreading
  have hraises : m.Raises "c" := ⟨x, "c", .readBytes "reset", hx, hkey, hmet⟩
  -- nothing was persisted
  have hnames : m.world.offsets.NamesKeys := by
    intro l hl k p o _ hanswer _
    rw [hm, Option.map_some] at hlookups
    have hl := List.all_eq_true.1 (Option.some.inj hlookups) l hl
    simp [Lookup.isVacant, hanswer] at hl
  obtain ⟨hlt, hget⟩ := List.getElem?_eq_some_iff.1 hm
  have hsplit : sampleMoments = sampleMoments.take 12 ++ m :: sampleMoments.drop 13 := by
    rw [← hget, List.getElem_cons_drop, List.take_append_drop]
  obtain ⟨-, hcounts⟩ := hcounts _ m _ "c" hsplit rfl hraises
  obtain ⟨k, -, n, body, e, hidentity, -, -, hfailure⟩ := hcounts hnames
  exact ⟨hfailed, hspares "c" hfailed, m, hm, hraises, k, n, body, e, hidentity, hfailure⟩

end Feed

end ObjectFeed
