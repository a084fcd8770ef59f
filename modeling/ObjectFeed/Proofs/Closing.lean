import ObjectFeed.Proofs.Restart

/-!
# Closing a feed between calls

A feed that is closed releases the object that is being read and takes it up again with the next
call. The offset that it looks up then is the one that it gave to the cache when it was closed, so
that it delivers what it would have delivered without.

* `RecordStream.Restorable`: a stream whose offset is read back from its properties.
* `Feed.closable_pull`: **the object that is being read after a call has such a stream.**
* `Feed.close_ok`: **closing keeps the state and the course.**
* `Feed.serve`: the outcomes of calls among which the feed is closed.
* `Feed.serve_eq_calls`: **they are those of the calls alone.**
-/

namespace ObjectFeed

namespace RecordStream

/-- The stream counts no less than it resumed from, and its offset is read back from its
properties. -/
structure Restorable (s : RecordStream) : Prop where
  count : s.resumeFrom ≤ s.offset.count
  offset : Offset.ofProperties s.offset.properties = .ok s.offset

theorem restorable_start (settings : DecoderSettings) (bucket objectKey : String) {o : Offset}
    {p : Properties} (h : Offset.ofProperties p = .ok o) :
    (start settings bucket objectKey o).Restorable :=
  ⟨Nat.le_refl _, Offset.ofProperties_again h⟩

variable {σ : Type} [ObjectStore σ] {s s' : RecordStream} {store store' : σ} {r : Record}

/-- A record that is delivered is counted, above all those that are not, and the object is still
open. -/
theorem offset_of_read (h : s.read store = (some (.ok r), s', store')) :
    (∃ d, s'.state = .reading d) ∧ s'.resumeFrom < s'.offset.count ∧
      s'.offset = { s.offset with count := s'.offset.count } := by
  unfold read at h
  split at h
  · rename_i d _
    obtain ⟨⟨p, n⟩, hp⟩ : ∃ out, out = d.pull (s.resumeFrom - s.offset.count) := ⟨_, rfl⟩
    rw [← hp] at h
    cases p with
    | record r' d' =>
      have hn := Decoder.count_of_pull hp.symm
      simp only [Prod.mk.injEq, Option.some.injEq] at h
      obtain ⟨-, rfl, -⟩ := h
      refine ⟨⟨d', rfl⟩, ?_, rfl⟩
      simp only
      omega
    | ended => simp at h
    | failed e => simp at h
  · simp at h

theorem offset_of_next (h : s.next store = (some (.ok r), s', store')) :
    (∃ d, s'.state = .reading d) ∧ s'.resumeFrom < s'.offset.count ∧
      s'.offset = { s.offset with count := s'.offset.count } := by
  unfold next at h
  obtain ⟨⟨failure, s₀, store₀⟩, hopen⟩ : ∃ out, out = s.open store := ⟨_, rfl⟩
  rw [← hopen] at h
  cases failure with
  | some e => simp at h
  | none =>
    obtain ⟨hreading, hcount, hoffset⟩ := offset_of_read h
    -- opening an object changes at most the count
    have hopened : { s₀.offset with count := s'.offset.count } =
        { s.offset with count := s'.offset.count } := by
      unfold RecordStream.open at hopen
      split at hopen
      · split at hopen
        · simp at hopen
        · split at hopen
          · simp at hopen
          · cases hopen
            rfl
      · cases hopen
        rfl
    exact ⟨hreading, hcount, hoffset.trans hopened⟩

theorem Restorable.next (h : s.Restorable) (hn : s.next store = (some (.ok r), s', store'))
    (hc : s'.offset.count < pow2 64) : s'.Restorable := by
  obtain ⟨-, hcount, hoffset⟩ := offset_of_next hn
  have hseparate : s'.offset.Separate := by
    rw [hoffset]
    exact fun name hname => Offset.separate_of_ofProperties h.offset name hname
  exact ⟨Nat.le_of_lt hcount, Offset.ofProperties_properties hseparate hc⟩

theorem Restorable.offset_close (h : s.Restorable) (store : σ) :
    (s.close store).1.offset = s.offset := by
  show s.offset.raiseTo s.resumeFrom = s.offset
  rw [Offset.raiseTo, Nat.max_eq_left h.count]

end RecordStream

namespace Feed

variable {σ τ : Type} {f : Feed}

/-- The object that is being read can be read again from where its stream is. -/
def Closable (f : Feed) : Prop := ∀ x, f.current = some x → x.stream.Restorable

/-- A turn leaves the feed closable, if the count that it delivers is one of 64 bits. -/
def Turn.Closable : Turn σ τ → Prop
  | .outcome r f _ => (∀ d, r = some (.ok d) → d.CountFits) → f.Closable
  | .again _ f _ => f.Closable

theorem closable_of_current (h : f.current = none) : f.Closable := by
  simp [Closable, h]

theorem closable_afterStoreError (hx : f.current = none) (s : Summary) (e : StoreError) :
    (f.afterStoreError s e).Closable := by
  unfold afterStoreError
  split <;> exact closable_of_current hx

theorem closable_afterStreamError (hx : f.current = none) (s : Summary) (e : Error)
    (w : World σ τ) : (f.afterStreamError s e w).Closable := by
  unfold afterStreamError
  split
  · exact fun _ => closable_afterStoreError hx _ _
  · split
    · exact fun _ => closable_of_current hx
    · exact closable_of_current hx

theorem closable_take [OffsetStore τ] (hx : f.current = none) (s : Summary) (w : World σ τ) :
    (f.take s w).Closable := by
  unfold take
  split
  · exact closable_of_current hx
  · split
    · rename_i hget
      obtain ⟨p, hp⟩ := OffsetCache.ofProperties_of_get hget
      rintro x ⟨⟩
      exact RecordStream.restorable_start _ _ _ hp
    · exact fun _ => closable_afterStoreError hx _ _
    · exact fun _ => closable_of_current hx

/-- A record that is delivered moves the stream on by one that is counted. -/
theorem closable_advance [ObjectStore σ] {x : InFlight} (h : x.stream.Restorable) (w : World σ τ) :
    (f.advance x w).Closable := by
  unfold advance
  split
  · rename_i r stream objects hnext
    intro hfits
    rintro _ ⟨⟩
    refine h.next hnext (hfits _ rfl stream.offset.count ?_)
    show stream.offset.properties.get? "recordCount" = _
    rw [Offset.get?_properties, if_pos rfl]
  · exact closable_afterStreamError rfl ..
  · exact closable_of_current rfl

variable [ObjectStore σ] [OffsetStore τ]

theorem closable_search (hx : f.current = none) (l : Listing) (listed : Bool) (w : World σ τ) :
    (f.search l listed w).Closable := by
  unfold search
  split
  · rename_i s l' objects _
    simp only
    split
    · exact closable_take (f := { f with listing := some l', lastKey := some s.key }) hx s _
    · exact closable_of_current hx
  · exact closable_of_current hx
  · exact closable_of_current hx
  · exact fun _ => closable_of_current hx

/-- Every turn of a closable feed leaves it closable. -/
theorem closable_turn (h : f.Closable) (listed : Bool) (w : World σ τ) :
    (f.turn listed w).Closable := by
  unfold turn
  split
  · exact fun _ => h
  · split
    · rename_i x hx
      exact closable_advance (h x hx) w
    · rename_i hx _
      exact closable_take (f := { f with pending := none }) hx ..
    · rename_i hx _ _
      exact closable_search hx ..
    · split
      · exact fun _ => h
      · exact h

/-- **A call leaves a closable feed closable**, if the count that it delivers is one of 64 bits. -/
theorem closable_pull (h : f.Closable) (limit : Nat) (listed : Bool) (w : World σ τ)
    (hfits : ∀ d, (f.pull limit listed w).1 = some (.ok d) → d.CountFits) :
    (f.pull limit listed w).2.1.Closable := by
  induction limit generalizing f listed w with
  | zero => exact h
  | succ limit ih =>
    have hturn := closable_turn h listed w
    unfold pull at hfits ⊢
    generalize f.turn listed w = t at hturn hfits ⊢
    cases t with
    | outcome r f' w' => exact hturn hfits
    | again listed' f' w' => exact ih hturn listed' w' hfits

variable [ObjectHolder σ] [OffsetHolder τ] {H : Holdings} {w : World σ τ}

/-- **Closing keeps the state and the course.** The object that was being read is to be read next,
and the cache knows where its stream was. -/
theorem close_ok (h : f.StateOK H w.cache) (hw : w.Holds f.lister.bucket H) (hc : f.Closable) :
    Keeps H f w (f.close w).1 (f.close w).2 ∧
      (f.close w).1.course H (f.close w).2.cache = f.course H w.cache ∧
      (f.close w).2.faults = w.faults ∧ (f.close w).1.Closable := by
  unfold close
  cases hx : f.current with
  | none => exact ⟨⟨rfl, h, hw, fun _ _ => rfl⟩, rfl, rfl, hc⟩
  | some x =>
    have hrest := hc x hx
    have hcur := h.current x hx
    have hoffset := hrest.offset_close w.objects
    have hslot : (w.cache.update x.stream.offset).slot? x.stream.offset.key =
        some x.stream.offset.properties :=
      OffsetCache.slot?_update_self (n := x.stream.offset.count) (hcur.tracks.imp id (·.2))
    have hother : ∀ l, l ≠ x.stream.offset.key →
        (w.cache.update x.stream.offset).slot? l = w.cache.slot? l := by
      intro l hl
      rw [OffsetCache.slot?_update, if_neg hl]
    obtain ⟨hstate, hcourse, hframe⟩ := h.requeue hx hslot hrest.offset hother
    simp only [hoffset]
    refine ⟨⟨rfl, hstate, ⟨?_, hw.2⟩, hframe⟩, hcourse, ?_, closable_of_current rfl⟩
    · exact RecordStream.holds_giveBack hw.1 _
    · exact congrArg (· + OffsetHolder.faults w.offsets) (RecordStream.faults_giveBack _ _)

/-- What is asked of a feed. -/
inductive Request where
  | next
  | close
deriving DecidableEq

/-- The outcomes of the calls for the next record among requests. -/
def serve (next : Feed → World σ τ → Option (Except Error Delivery) × Feed × World σ τ) :
    List Request → Feed → World σ τ → List (Option (Except Error Delivery)) × Feed × World σ τ
  | [], f, w => ([], f, w)
  | .next :: requests, f, w =>
    match next f w with
    | (r, f, w) =>
      match serve next requests f w with
      | (rs, f, w) => (r :: rs, f, w)
  | .close :: requests, f, w =>
    match f.close w with
    | (f, w) => serve next requests f w

/-- **Requests serve the course call by call**, wherever the feed is closed in between, if no
failures are to come. -/
theorem serve_ok (next : Feed → World σ τ → Option (Except Error Delivery) × Feed × World σ τ)
    (hnext : ∀ f w, w.Holds f.lister.bucket H →
      ∃ limit, f.load H false < limit ∧ next f w = f.pull limit false w)
    (hr : Resumable H.persisted) (requests : List Request) (h : f.StateOK H w.cache)
    (hw : w.Holds f.lister.bucket H) (hfaults : w.faults = 0) (hc : f.Closable)
    (hfits : ∀ d, some (.ok d) ∈ served (f.course H w.cache).items (requests.count .next) →
      d.CountFits) :
    (serve next requests f w).1 = served (f.course H w.cache).items (requests.count .next) := by
  induction requests generalizing f w with
  | nil => rfl
  | cons request requests ih =>
    cases request with
    | next =>
      obtain ⟨limit, hlimit, hpull⟩ := hnext f w hw
      obtain ⟨hkeeps, haccounts⟩ := pull_ok hr limit false h hw (by simp) hlimit
      have hclosable := closable_pull hc limit false w
      rw [← hpull] at hkeeps haccounts hclosable
      unfold serve
      generalize next f w = out at hkeeps haccounts hclosable ⊢
      obtain ⟨r, f', w'⟩ := out
      simp only at hkeeps haccounts hclosable ⊢
      obtain ⟨hhead, htail, hsame, -⟩ := haccounts.answer (haccounts.answers hfaults)
      rw [List.count_cons_self, served_succ, ← hhead] at hfits ⊢
      have hrest := ih hkeeps.state hkeeps.holds (hsame.trans hfaults)
        (hclosable fun d hd => hfits d (by rw [hd]; exact List.mem_cons_self))
        (by rw [htail]; exact fun d hd => hfits d (List.mem_cons_of_mem _ hd))
      rw [htail] at hrest
      exact congrArg (r :: ·) hrest
    | close =>
      obtain ⟨hkeeps, hcourse, hsame, hclosable⟩ := close_ok h hw hc
      rw [List.count_cons_of_ne (by simp), ← hcourse] at hfits ⊢
      exact ih hkeeps.state hkeeps.holds (hsame.trans hfaults) hclosable hfits

/-- Nothing of the stores is told to fail. -/
structure MemoryWorld.Quiet (w : MemoryWorld) : Prop where
  listFailures : w.objects.listFailures = 0
  queuedListings : w.objects.queued = []
  fetchFailures : w.objects.fetchFailures = ∅
  lookupFailures : w.offsets.failures = 0
  queuedLookups : w.offsets.queued = []

/-- The listing of a bucket that is missing fails. -/
theorem list_of_missing {s : MemoryObjects} {r : ListRequest} (hl : s.listFailures = 0)
    (hq : s.queued = []) (ht : r.token = none) (hb : s.buckets.get? r.bucket = none) :
    ∃ e, s.list r = (.error e, { s with listLog := s.listLog ++ [r] }) := by
  rcases MemoryObjects.list_cases s r with ⟨-, -, hlist⟩ | ⟨hfails, -⟩
  · have hanswer : s.answer r = .error
        { kind := .notFound, message := "Bucket " ++ r.bucket ++ " not found" } := by
      simp [MemoryObjects.answer, ht, hb, bind, Except.bind, pure, Except.pure, throw, throwThe,
        MonadExceptOf.throw]
    rw [hanswer] at hlist
    exact ⟨_, hlist⟩
  · exact absurd hfails (by simp [hl, hq])

/-- A feed that has read nothing stays as it is while its bucket is missing. -/
theorem next_of_missing {w : MemoryWorld} (h : f.Fresh) (hw : w.Quiet)
    (hb : w.objects.buckets.get? f.lister.bucket = none) :
    ∃ r w', f.next w = (r, f, w') ∧ w'.Quiet ∧ w'.objects.buckets = w.objects.buckets := by
  obtain ⟨n, hn⟩ : ∃ n, f.turnLimit w = n + 2 :=
    ⟨f.turnLimit w - 2, (Nat.sub_add_cancel (Nat.le_add_left_of_le (by decide))).symm⟩
  let l := f.lister.start f.lastKey
  let g : Feed := { f with listing := some l }
  let w' : MemoryWorld := { w with
    objects := { w.objects with listLog := w.objects.listLog ++ [l.request] } }
  obtain ⟨e, hlist⟩ := list_of_missing (r := l.request) hw.listFailures hw.queuedListings rfl hb
  have hstep : l.step w.objects = (.failed e, { l with done := true }, w'.objects) := by
    unfold Listing.step
    rw [show ObjectStore.list w.objects l.request = _ from hlist]
    rfl
  -- the first turn begins a listing, and the second one gives it up
  have hbegin : f.turn false w = .again true g w := by
    simp [turn, h.terminated, h.current, h.pending, h.listing, g, l]
  have hfail : g.turn true w =
      .outcome (some (.error (.store e))) { g with listing := none } w' := by
    simp [turn, g, h.terminated, h.current, h.pending, search, hstep, w']
  have hg : { g with listing := none } = f := by rw [← h.listing]
  have hquiet : w'.Quiet := ⟨hw.listFailures, hw.queuedListings, hw.fetchFailures,
    hw.lookupFailures, hw.queuedLookups⟩
  refine ⟨some (.error (.store e)), w', ?_, hquiet, rfl⟩
  rw [next, hn, pull, hbegin]
  simp only
  rw [pull, hfail, hg]

/-- Without an object to release, closing does nothing. -/
theorem serve_of_missing {w : MemoryWorld} (h : f.Fresh) (hw : w.Quiet)
    (hb : w.objects.buckets.get? f.lister.bucket = none) (requests : List Request) :
    (serve next requests f w).1 = (calls next (requests.count .next) f w).1 := by
  induction requests generalizing w with
  | nil => rfl
  | cons request requests ih =>
    cases request with
    | next =>
      obtain ⟨r, w', hnext, hw', hb'⟩ := next_of_missing h hw hb
      rw [List.count_cons_self, serve, calls, hnext]
      exact congrArg (r :: ·) (ih hw' (hb'.symm ▸ hb))
    | close =>
      have hclose : f.close w = (f, w) := by
        unfold close
        rw [h.current]
      rw [List.count_cons_of_ne (by simp), serve, hclose]
      exact ih hw hb

/-- **Calls deliver the same, wherever the feed is closed between them**: the records with their
offsets, the failures and the ends, whatever the bucket holds and even if there is none. Counts are
numbers of 64 bits. -/
theorem serve_eq_calls {d : Directories} {c : FeedConfig} {failed : KeySet}
    (hf : start d c failed = .ok f) {w : MemoryWorld} (hw : w.Quiet) (hcache : w.cache = {})
    (hr : Resumable w.offsets.stored?) (requests : List Request)
    (hfits : ∀ d, some (.ok d) ∈ (calls next (requests.count .next) f w).1 → d.CountFits) :
    (serve next requests f w).1 = (calls next (requests.count .next) f w).1 := by
  have hfresh := fresh_start hf
  cases hb : w.objects.buckets.get? c.bucket with
  | none => exact serve_of_missing hfresh hw (by rw [bucket_start hf, hb]) requests
  | some objects =>
    have hcalm : w.Calm c.bucket objects := ⟨hb, hw.listFailures, hw.queuedListings,
      hw.fetchFailures, hw.lookupFailures, hw.queuedLookups⟩
    have hholds : w.Holds f.lister.bucket (w.holdings objects) := bucket_start hf ▸ hcalm.holds
    have hstate : f.StateOK (w.holdings objects) w.cache := hcache ▸ stateOK_fresh hfresh _
    have hcalls := (calls_of_calm hstate hholds hcalm.faults hr (requests.count .next)).1
    rw [hcalls] at hfits ⊢
    exact serve_ok next (fun f w => next_eq_pull f w) hr requests hstate hholds hcalm.faults
      (closable_of_current hfresh.current) hfits

/-- The feed is closed before the first chunk, between two chunks of an object, between two objects,
twice in a row, and after the end. -/
theorem serve_eq_calls_sample :
    (serve next [.close, .next, .close, .next, .close, .next, .close, .close, .next, .next, .close]
      sampleFeed sampleWorld).1 = (calls next 5 sampleFeed sampleWorld).1 := by
  refine serve_eq_calls start_sampleConfig ⟨rfl, rfl, rfl, rfl, rfl⟩ rfl resumable_sampleWorld
    _ fun d hd => countFits_of_mem_sampleReference (mem_of_mem_served (n := 5) ?_)
  rw [← (calls_of_start start_sampleConfig calm_sampleWorld rfl resumable_sampleWorld 5).1]
  exact hd

end Feed

end ObjectFeed
