import ObjectFeed.Proofs.Standing

/-!
# Turns

Every turn of a pull keeps the state well formed and accounts for the course of the feed: it
delivers the first item of the course, it returns a failure of a store and leaves the course as it
is, or it gets nearer to one of the two.

* `Feed.Keeps`: what all turns keep.
* `Feed.Accounts`: what an outcome says about the course.
* `Feed.load`: a number that falls with every turn without an outcome.
* `Feed.turn_ok`: **each turn keeps the state and accounts for the course.**
-/

namespace ObjectFeed

open MemoryObjects (isAfter matching mem_matching matching_of_append)

/-- The failure is one of a store. -/
def Error.isStore : Error → Bool
  | .store _ => true
  | _ => false

namespace Feed

variable {σ τ : Type} [ObjectStore σ] [OffsetStore τ] [ObjectHolder σ] [OffsetHolder τ]

/-- What all turns keep. Of the cache they touch only what belongs to the worker's own keys. -/
structure Keeps (H : Holdings) (f : Feed) (w : World σ τ) (f' : Feed) (w' : World σ τ) : Prop where
  setup : f'.setup = f.setup
  state : f'.StateOK H w'.cache
  holds : w'.Holds f'.lister.bucket H
  others : ∀ k : OffsetKey, f.filter.assignment.owns k.objectKey = false →
    w'.cache.slot? k = w.cache.slot? k

/-- The course of a feed that has nothing more to deliver. -/
def finished (f : Feed) : Course := ⟨[], f.filter.failed, f.terminated⟩

/-- What an outcome says about the course before it and the failures that were to come: there is
nothing to deliver, or the outcome is the first item, or it is a failure of a store. -/
inductive Accounts (H : Holdings) (before : Course) (faults : Nat) :
    Option (Except Error Delivery) → Feed → World σ τ → Prop where
  | nothing {f : Feed} {w : World σ τ} (course : f.course H w.cache = before)
      (finished : before = f.finished) (same : w.faults = faults) :
      Accounts H before faults none f w
  | item {x : Except Error Delivery} {f : Feed} {w : World σ τ}
      (course : before = (f.course H w.cache).push x)
      (sound : ∀ e, x = .error e → e.isStore = false) (same : w.faults = faults) :
      Accounts H before faults (some x) f w
  | failure {e : StoreError} {f : Feed} {w : World σ τ} (course : f.course H w.cache = before)
      (fewer : faults = w.faults + 1) :
      Accounts H before faults (some (.error (.store e))) f w

/-- A pull that has begun a listing has taken up no object since, and the listing's end means that
there is nothing new. -/
structure Settled (f : Feed) (H : Holdings) : Prop where
  current : f.current = none
  pending : f.pending = none
  unseen : f.listing = none → f.unseen H = []

/-- How far a listing is from its next item or its end. -/
def listingLoad : Option Listing → Nat
  | none => 0
  | some l => if l.buffer = [] ∧ l.done = false then 2 else 1

/-- A number that falls with every turn without an outcome. -/
def load (f : Feed) (H : Holdings) (listed : Bool) : Nat :=
  8 * (f.unseen H).length + (f.current.elim 0 fun _ => 1) + (f.pending.elim 0 fun _ => 2) +
    (if listed then 0 else 4) + listingLoad f.listing

/-- A turn keeps the state; without an outcome it also keeps the course and lowers the load. -/
inductive TurnOK (H : Holdings) (f : Feed) (listed : Bool) (w : World σ τ) : Turn σ τ → Prop where
  | again {listed' : Bool} {f' : Feed} {w' : World σ τ} (keeps : Keeps H f w f' w')
      (course : f'.course H w'.cache = f.course H w.cache) (same : w'.faults = w.faults)
      (settled : listed' = true → f'.Settled H) (fall : f'.load H listed' < f.load H listed) :
      TurnOK H f listed w (.again listed' f' w')
  | outcome {r : Option (Except Error Delivery)} {f' : Feed} {w' : World σ τ}
      (keeps : Keeps H f w f' w') (accounts : Accounts H (f.course H w.cache) w.faults r f' w') :
      TurnOK H f listed w (.outcome r f' w')

variable {f g : Feed} {H : Holdings} {w : World σ τ} {c c' : OffsetCache} {s : Summary}

theorem listingLoad_le (l : Option Listing) : listingLoad l ≤ 2 := by
  unfold listingLoad
  split
  · omega
  · split <;> omega

theorem listingLoad_pos (l : Listing) : 0 < listingLoad (some l) := by
  unfold listingLoad
  simp only
  split <;> omega

theorem course_of_current {x : InFlight} (ht : f.terminated = false) (hx : f.current = some x)
    (hp : f.pending = none) :
    f.course H c = .ofYields f.tolerance f.filter.failed
      ((x.summary.key, f.yieldFrom H x.summary.key x.stream.offset) :: f.coming H c) := by
  unfold course ahead
  rw [ht, hx, hp]
  rfl

theorem course_of_pending (ht : f.terminated = false) (hx : f.current = none)
    (hp : f.pending = some s) :
    f.course H c =
      .ofYields f.tolerance f.filter.failed (f.yields H c s.key ++ f.coming H c) := by
  unfold course ahead
  rw [ht, hx, hp]
  rfl

theorem course_of_idle (ht : f.terminated = false) (hx : f.current = none)
    (hp : f.pending = none) :
    f.course H c = .ofYields f.tolerance f.filter.failed (f.coming H c) := by
  unfold course ahead
  rw [ht, hx, hp]
  rfl

theorem load_of_idle (hx : f.current = none) (hp : f.pending = none) (listed : Bool) :
    f.load H listed =
      8 * (f.unseen H).length + (if listed then 0 else 4) + listingLoad f.listing := by
  unfold load
  rw [hx, hp]
  rfl

theorem load_of_pending (hx : f.current = none) (hp : f.pending = some s) :
    f.load H false = 8 * (f.unseen H).length + 6 + listingLoad f.listing := by
  unfold load
  rw [hx, hp]
  rfl

/-- The first object of the buffer is the first one that has not been seen. -/
theorem unseen_of_buffer {l : Listing} {buffer : List Summary}
    (h : l.Covers f.lister H.objects f.lastKey) (hb : l.buffer = s :: buffer) :
    f.unseen H = s :: matching H.objects f.lister.keyPrefix (some s.key) := by
  obtain ⟨rest, hm⟩ := h.matching_eq
  rw [hb, List.cons_append] at hm
  have hrest := matching_of_append [] hm
  unfold unseen
  rw [hm, hrest]

/-- A turn that takes up the object to be read next. -/
theorem take_ok (h : f.StateOK H w.cache) (hw : w.Holds f.lister.bucket H)
    (hr : Resumable H.persisted) (hterm : f.terminated = false) (hp : f.pending = some s) :
    TurnOK H f false w ({ f with pending := none }.take s w) := by
  have hx : f.current = none := h.single.resolve_right (by simp [hp])
  have hup := h.pending s hp
  have hbefore := course_of_pending (H := H) (c := w.cache) hterm hx hp
  unfold take
  cases hi : f.identify s.key with
  | none =>
    -- an object without an identity is passed over
    have hi' : { f with pending := none }.identify s.key = none := hi
    rw [yields_of_identify_none hi] at hbefore
    rw [hi']
    refine .again ⟨rfl, ?_, hw, fun _ _ => rfl⟩ ?_ rfl (by simp) ?_
    · exact ⟨h.listing, h.unseen, .inr rfl, by simp, by simp [hx]⟩
    · rw [hbefore]
      exact course_of_idle hterm hx rfl
    · show 8 * (f.unseen H).length + _ + _ + _ + _ < 8 * (f.unseen H).length + _ + _ + _ + _
      simp only [hp, Option.elim]
      omega
  | some k =>
    have hi' : { f with pending := none }.identify s.key = some k := hi
    have hk : k.objectKey = s.key := identify_objectKey hi
    rw [yields_of_identify hi] at hbefore
    rw [hi']
    rcases OffsetCache.get_cases hr (hup.ready k hi) hw.2 with
      ⟨c', offsets, p, hget, hkey, hslot, ho, hother, ht, hfaults⟩ |
        ⟨e, offsets, hget, he, ht, hfaults⟩
    · -- its offset is known now, and nothing else has changed in the cache
      obtain ⟨hframe, hunseen, hcoming⟩ := h.others hup.lastKey hup.owned hk hother
      simp only [hget]
      refine .again ⟨rfl, ?_, ⟨hw.1, ht⟩, hframe⟩ ?_ ?_ (by simp) ?_
      · refine ⟨h.listing, hunseen, .inr rfl, by simp, ?_⟩
        rintro x ⟨⟩
        obtain ⟨body, hbody⟩ := hup.stored
        rw [← hkey] at hslot
        exact ⟨hup.lastKey, hup.owned, hi.trans (congrArg some hkey.symm), rfl, rfl, rfl,
          ⟨body, hbody, trivial⟩, .inl ⟨p, hslot, ho⟩⟩
      · let stream := RecordStream.start f.settings f.lister.bucket s.key
          (w.cache.progress H.persisted k)
        rw [hbefore, ← hcoming]
        exact course_of_current (f := { f with pending := none, current := some ⟨s, stream⟩ })
          hterm rfl rfl
      · exact congrArg (ObjectHolder.faults w.objects + ·) hfaults
      · show 8 * (f.unseen H).length + _ + _ + _ + _ < 8 * (f.unseen H).length + _ + _ + _ + _
        simp only [hp, hx, Option.elim]
        omega
    · -- the look-up has failed: the object stays the next one
      simp only [hget, afterStoreError, he, if_true]
      have hf : { f with pending := some s } = f := by rw [← hp]
      rw [hf]
      exact .outcome ⟨rfl, h, ⟨hw.1, ht⟩, fun _ _ => rfl⟩
        (.failure rfl (congrArg (ObjectHolder.faults w.objects + ·) hfaults))

/-- A key that has failed is not among the later ones. -/
theorem accepts_markFailed (filter : TaskFilter) {key : String} (h : s.key ≠ key) :
    (filter.markFailed key).accepts s = filter.accepts s := by
  simp only [TaskFilter.accepts, TaskFilter.markFailed, Dict.contains, Dict.get?_insert, if_neg h]

/-- What an update of the progress of the current object keeps. -/
theorem StateOK.update {x : InFlight} (h : f.StateOK H c) (hx : f.current = some x) {o : Offset}
    (ho : o.key = x.stream.offset.key) :
    (∀ l : OffsetKey, f.filter.assignment.owns l.objectKey = false →
      (c.update o).slot? l = c.slot? l) ∧
      (∀ s ∈ f.unseen H, f.filter.assignment.owns s.key = true → f.Ready (c.update o) s.key) ∧
      f.coming H (c.update o) = f.coming H c := by
  have hcur := h.current x hx
  refine h.others hcur.lastKey hcur.owned (identify_objectKey hcur.identity) fun l hl => ?_
  rw [OffsetCache.slot?_update, ho, if_neg hl]

/-- The current object may stand back and be read next, if the cache knows an offset of it that is
the one of its stream. -/
theorem StateOK.requeue {x : InFlight} {p : Properties} (h : f.StateOK H c)
    (hx : f.current = some x) (hslot : c'.slot? x.stream.offset.key = some p)
    (ho : Offset.ofProperties p = .ok x.stream.offset)
    (hother : ∀ l, l ≠ x.stream.offset.key → c'.slot? l = c.slot? l) :
    { f with current := none, pending := some x.summary }.StateOK H c' ∧
      { f with current := none, pending := some x.summary }.course H c' = f.course H c ∧
      ∀ l : OffsetKey, f.filter.assignment.owns l.objectKey = false →
        c'.slot? l = c.slot? l := by
  have hcur := h.current x hx
  obtain ⟨body, hb, -⟩ := hcur.follows
  obtain ⟨hframe, hunseen, hcoming⟩ :=
    h.others hcur.lastKey hcur.owned (identify_objectKey hcur.identity) hother
  refine ⟨⟨h.listing, hunseen, .inl rfl, ?_, by simp⟩, ?_, hframe⟩
  · rintro s ⟨⟩
    refine ⟨hcur.lastKey, hcur.owned, ⟨body, hb⟩, fun k hk p' hp' => ?_⟩
    cases hk.symm.trans hcur.identity
    cases hp'.symm.trans hslot
    exact ⟨_, ho, rfl⟩
  · rcases Bool.eq_false_or_eq_true f.terminated with hterm | hterm
    · unfold course
      rw [hterm]
      rfl
    · have hyields : f.yields H c' x.summary.key =
          [(x.summary.key, f.yieldFrom H x.summary.key x.stream.offset)] := by
        rw [yields_of_identify hcur.identity, OffsetCache.progress_of_slot hslot ho]
      rw [course_of_current hterm hx (h.single.resolve_left (by simp [hx])), ← hcoming,
        ← List.singleton_append, ← hyields]
      exact course_of_pending (f := { f with current := none, pending := some x.summary })
        hterm rfl rfl

/-- The course before a turn that moves the stream of the current object on. -/
theorem course_of_reading {x : InFlight} {body : Body} (h : f.StateOK H c)
    (hterm : f.terminated = false) (hx : f.current = some x)
    (hb : H.objects.get? x.summary.key = some body) :
    f.course H c = .ofYields f.tolerance f.filter.failed ((x.summary.key,
      (body.transcript f.settings x.stream.offset.key).yield x.stream.offset x.summary.key) ::
        f.coming H c) := by
  rw [course_of_current hterm hx (h.single.resolve_left (by simp [hx])), yieldFrom_of_get hb]

/-- A turn without an outcome that gives the current object up lowers the load. -/
theorem load_given_up {x : InFlight} (hx : f.current = some x) (filter : TaskFilter) :
    { f with current := none, filter }.load H false < f.load H false := by
  show 8 * (f.unseen H).length + _ + _ + _ + _ < 8 * (f.unseen H).length + _ + _ + _ + _
  simp only [hx, Option.elim]
  omega

section Advance

variable {x : InFlight} {body : Body} {objects : σ}
variable (h : f.StateOK H w.cache) (hw : w.Holds f.lister.bucket H) (hterm : f.terminated = false)
variable (hx : f.current = some x) (hb : H.objects.get? x.summary.key = some body)
variable (hholds : ObjectHolder.Holds objects f.lister.bucket H.objects)

include h hw hterm hx hb hholds

omit hterm hb in
/-- The store has failed before the object was opened: the object is read next. -/
theorem refused_ok {e : StoreError}
    (hstate : x.stream.state = .pending)
    (hfaults : ObjectHolder.faults w.objects = ObjectHolder.faults objects + 1) :
    TurnOK H f false w (.outcome (some (.error (.store e)))
      { f with current := none, pending := some x.summary } { w with objects }) := by
  -- the object has not been read since its offset was looked up
  have htracks := (h.current x hx).tracks
  simp only [OffsetCache.Tracks, hstate, reduceCtorEq, exists_false, false_and, or_false]
    at htracks
  obtain ⟨p, hslot, ho⟩ := htracks
  obtain ⟨hstate', hcourse, hframe⟩ := h.requeue hx hslot ho fun _ _ => rfl
  refine .outcome ⟨rfl, hstate', ⟨hholds, hw.2⟩, hframe⟩ (.failure hcourse ?_)
  simp only [World.faults, hfaults]
  omega

/-- A record has been read: it is the first item of the course. -/
theorem record_ok {stream : RecordStream} {d : Decoder}
    (hlt : x.stream.offset.count <
      (body.transcript f.settings x.stream.offset.key).records.length)
    (hfollows : stream.Follows (body.transcript f.settings x.stream.offset.key))
    (hoffset : stream.offset = x.stream.offset.next) (hstate : stream.state = .reading d)
    (hsettings : stream.settings = f.settings) (hbucket : stream.bucket = f.lister.bucket)
    (hobject : stream.objectKey = x.summary.key)
    (hfaults : ObjectHolder.faults objects = ObjectHolder.faults w.objects) :
    TurnOK H f false w (.outcome
      (some (.ok (deliver { x with stream }
        (body.transcript f.settings x.stream.offset.key).records[x.stream.offset.count])))
      { f with current := some { x with stream } }
      { w with objects, cache := w.cache.update stream.offset }) := by
  have hp : f.pending = none := h.single.resolve_left (by simp [hx])
  have hcur := h.current x hx
  have hbefore := course_of_reading h hterm hx hb
  have hkey : stream.offset.key = x.stream.offset.key := by
    rw [hoffset]
    rfl
  have hcount : ({ stream.offset with count := x.stream.offset.count } : Offset) =
      x.stream.offset := by
    rw [hoffset]
    rfl
  obtain ⟨hframe, hunseen, hcoming⟩ := h.update hx hkey
  refine .outcome ⟨rfl, ?_, ⟨hholds, hw.2⟩, hframe⟩ (.item ?_ (by simp) ?_)
  · refine ⟨h.listing, hunseen, .inr hp, by simp [hp], ?_⟩
    rintro y ⟨⟩
    refine ⟨hcur.lastKey, hcur.owned, ?_, hsettings, hbucket, hobject, ⟨body, hb, ?_⟩,
      .inr ⟨⟨d, hstate⟩, ?_⟩⟩
    · rw [hkey]
      exact hcur.identity
    · rw [hkey]
      exact hfollows
    · -- the count in the cache is the one before the record
      refine OffsetCache.slot?_update_self (n := x.stream.offset.count) ?_
      rw [hcount, hkey]
      exact hcur.tracks.imp id (·.2)
  · have hyield : (body.transcript f.settings x.stream.offset.key).yield
        x.stream.offset.next x.summary.key =
        f.yieldFrom H x.summary.key stream.offset := by
      rw [yieldFrom_of_get hb, hkey, hoffset]
    have hdelivery : deliver { x with stream }
        (body.transcript f.settings x.stream.offset.key).records[x.stream.offset.count] =
        x.stream.offset.delivery x.summary.key (x.stream.offset.count + 1)
          (body.transcript f.settings x.stream.offset.key).records[x.stream.offset.count] := by
      unfold deliver
      rw [hoffset]
      rfl
    have hafter := course_of_current (f := { f with current := some { x with stream } })
      (H := H) (c := w.cache.update stream.offset) hterm rfl hp
    rw [hbefore, Transcript.yield_of_lt hlt, Course.ofYields_push, hyield, ← hcoming, hafter,
      hdelivery]
    rfl
  · simp only [World.faults, hfaults]

/-- The object has ended: the course goes on with the next one. -/
theorem ended_ok {stream : RecordStream}
    (hle : (body.transcript f.settings x.stream.offset.key).records.length ≤
      x.stream.offset.count)
    (hfailure : (body.transcript f.settings x.stream.offset.key).failure = none)
    (hoffset : stream.offset = x.stream.offset)
    (hfaults : ObjectHolder.faults objects = ObjectHolder.faults w.objects) :
    TurnOK H f false w (.again false { f with current := none }
      { w with objects, cache := w.cache.update stream.offset }) := by
  have hp : f.pending = none := h.single.resolve_left (by simp [hx])
  have hbefore := course_of_reading h hterm hx hb
  rw [Transcript.yield_of_le hle, hfailure] at hbefore
  obtain ⟨hframe, hunseen, hcoming⟩ := h.update (o := stream.offset) hx (by rw [hoffset])
  refine .again ⟨rfl, ?_, ⟨hholds, hw.2⟩, hframe⟩ ?_ ?_ (by simp) ?_
  · exact ⟨h.listing, hunseen, .inl rfl, by simp [hp], by simp⟩
  · rw [hbefore, ← hcoming]
    exact course_of_idle (f := { f with current := none }) hterm rfl hp
  · simp only [World.faults, hfaults]
  · exact load_given_up hx f.filter

/-- The object is malformed: its failure is the last item of the course, or else the course goes on
without its key. -/
theorem malformed_ok {e : DecodeError}
    (hle : (body.transcript f.settings x.stream.offset.key).records.length ≤
      x.stream.offset.count)
    (hfailure : (body.transcript f.settings x.stream.offset.key).failure = some e)
    (hfaults : ObjectHolder.faults objects = ObjectHolder.faults w.objects) :
    TurnOK H f false w ({ f with current := none }.afterStreamError x.summary
      (.decode x.stream.offset.key.objectKey e) { w with objects }) := by
  have hp : f.pending = none := h.single.resolve_left (by simp [hx])
  have hcur := h.current x hx
  have hbefore := course_of_reading h hterm hx hb
  rw [Transcript.yield_of_le hle, hfailure, Option.map_some] at hbefore
  unfold afterStreamError
  simp only
  split
  · rename_i htol
    refine .outcome ⟨rfl, ?_, ⟨hholds, hw.2⟩, fun _ _ => rfl⟩ (.item ?_ ?_ ?_)
    · exact ⟨h.listing, h.unseen, .inl rfl, by simp [hp], by simp⟩
    · rw [hbefore, identify_objectKey hcur.identity]
      exact Course.ofYields_fatal htol ..
    · rintro _ ⟨⟩
      rfl
    · simp only [World.faults, hfaults]
  · rename_i htol
    refine .again ⟨rfl, ?_, ⟨hholds, hw.2⟩, fun _ _ => rfl⟩ ?_ ?_ (by simp) ?_
    · exact ⟨h.listing, h.unseen, .inl rfl, by simp [hp], by simp⟩
    · -- all keys to come are later ones
      have hcoming : { f with current := none, filter := f.filter.markFailed x.summary.key }.coming
          H w.cache = f.coming H w.cache :=
        coming_congr rfl rfl (fun s hs => accepts_markFailed _
          (ne_of_mem_unseen hcur.lastKey hs)) fun _ _ _ _ _ => rfl
      have hafter := course_of_idle (f := { f with
        current := none, filter := f.filter.markFailed x.summary.key })
        (H := H) (c := w.cache) hterm rfl hp
      rw [hcoming] at hafter
      rw [hbefore]
      exact hafter.trans (Course.ofYields_tolerated htol ..).symm
    · simp only [World.faults, hfaults]
    · exact load_given_up hx _

end Advance

/-- A turn that moves the stream of the current object on. -/
theorem advance_ok {x : InFlight} (h : f.StateOK H w.cache) (hw : w.Holds f.lister.bucket H)
    (hterm : f.terminated = false) (hx : f.current = some x) :
    TurnOK H f false w (f.advance x w) := by
  have hcur := h.current x hx
  obtain ⟨body, hb, hfollows⟩ := hcur.follows
  have hcases := RecordStream.next_cases (s := x.stream) (by rw [hcur.settings]; exact hfollows)
    (by rw [hcur.objectKey]; exact hb) (by rw [hcur.bucket]; exact hw.1)
  rw [hcur.settings, hcur.bucket] at hcases
  unfold advance
  rcases hcases with ⟨e, objects, hnext, he, hstate, hholds, hfaults⟩ |
    ⟨objects, hholds, hfaults, ⟨hlt, stream, d, hnext, hfollows', hoffset, hd, hs, hbk, hk⟩ |
      ⟨hle, stream, hnext, hclosed, hoffset⟩⟩
  · simp only [hnext, RecordStream.close, RecordStream.giveBack, afterStreamError,
      afterStoreError, he, if_true]
    exact refused_ok h hw hx hholds hstate hfaults
  · simp only [hnext]
    exact record_ok h hw hterm hx hb hholds hlt hfollows' hoffset hd hs hbk
      (hk.trans hcur.objectKey) hfaults
  · cases hfailure : (body.transcript f.settings x.stream.offset.key).failure with
    | none =>
      rw [hfailure] at hnext
      simp only [hnext, Option.map_none]
      exact ended_ok h hw hterm hx hb hholds hle hfailure hoffset hfaults
    | some e =>
      rw [hfailure] at hnext
      simp only [hnext, Option.map_some, RecordStream.close, hclosed, RecordStream.giveBack]
      exact malformed_ok h hw hterm hx hb hholds hle hfailure hfaults

/-- What is coming before and after the next object is listed. -/
theorem coming_of_buffer {l : Listing} {buffer : List Summary} (h : f.StateOK H c)
    (hl : f.listing = some l) (hb : l.buffer = s :: buffer) :
    f.coming H c = (if f.filter.accepts s then f.yields H c s.key else []) ++
      { f with lastKey := some s.key }.coming H c := by
  unfold coming
  rw [unseen_of_buffer (h.listing l hl) hb, List.filter_cons]
  split
  · rw [List.flatMap_cons]
    rfl
  · rfl

/-- The listing and the objects to come after the next object has been listed. -/
theorem listed_ok {l : Listing} {buffer : List Summary} (h : f.StateOK H c)
    (hl : f.listing = some l) (hb : l.buffer = s :: buffer) :
    (∀ l', some { l with buffer } = some l' → l'.Covers f.lister H.objects (some s.key)) ∧
      (∀ s' ∈ matching H.objects f.lister.keyPrefix (some s.key),
        f.filter.assignment.owns s'.key = true → f.Ready c s'.key) ∧
      (f.unseen H).length =
        (matching H.objects f.lister.keyPrefix (some s.key)).length + 1 := by
  have hunseen := unseen_of_buffer (h.listing l hl) hb
  refine ⟨?_, ?_, ?_⟩
  · rintro _ ⟨⟩
    exact (h.listing l hl).pop hb
  · intro s' hs'
    exact h.unseen s' (by rw [hunseen]; exact List.mem_cons_of_mem _ hs')
  · rw [hunseen]
    rfl

/-- A state from which a turn goes on stands for the one before it. -/
theorem TurnOK.of_course {listed listed' : Bool} {t : Turn σ τ} (h : TurnOK H g listed' w t)
    (hs : g.setup = f.setup) (hc : g.course H w.cache = f.course H w.cache)
    (hl : g.load H listed' ≤ f.load H listed) : TurnOK H f listed w t := by
  have hkeeps : ∀ {f' w'}, Keeps H g w f' w' → Keeps H f w f' w' := fun hk =>
    ⟨hk.setup.trans hs, hk.state, hk.holds, by rw [← assignment_congr hs]; exact hk.others⟩
  cases h with
  | again keeps course same settled fall =>
    exact .again (hkeeps keeps) (course.trans hc) same settled (Nat.lt_of_lt_of_le fall hl)
  | outcome keeps accounts =>
    rw [hc] at accounts
    exact .outcome (hkeeps keeps) accounts

section Search

variable {l : Listing} {buffer : List Summary} {listed : Bool}
variable (h : f.StateOK H w.cache) (hw : w.Holds f.lister.bucket H)
variable (hterm : f.terminated = false) (hx : f.current = none) (hp : f.pending = none)
variable (hl : f.listing = some l)

include h hw hterm hx hp hl

/-- An object that is accepted stands where an object does that is to be read next. -/
theorem accepted_ok (hr : Resumable H.persisted) (hb : l.buffer = s :: buffer)
    (hacc : f.filter.accepts s = true) :
    TurnOK H f listed w
      ({ f with listing := some { l with buffer }, lastKey := some s.key }.take s w) := by
  let g : Feed := { f with
    listing := some { l with buffer }, lastKey := some s.key, pending := some s }
  have hg : ({ g with pending := none } : Feed) =
      { f with listing := some { l with buffer }, lastKey := some s.key } := by
    simp only [g, hp]
  obtain ⟨hpop, hlater, hlength⟩ := listed_ok h hl hb
  have hmem : s ∈ f.unseen H := by
    rw [unseen_of_buffer (h.listing l hl) hb]
    exact List.mem_cons_self
  obtain ⟨-, -, body, hbody, -⟩ := mem_matching hmem
  have howns : f.filter.assignment.owns s.key = true := by
    simp only [TaskFilter.accepts, Bool.and_eq_true] at hacc
    exact hacc.1.2
  have hstate : g.StateOK H w.cache := by
    refine ⟨hpop, hlater, .inl hx, ?_, by simp [g, hx]⟩
    rintro _ ⟨⟩
    exact ⟨rfl, howns, ⟨body, hbody⟩, h.unseen s hmem howns⟩
  have hturn := take_ok hstate hw hr hterm (s := s) rfl
  rw [hg] at hturn
  refine hturn.of_course rfl ?_ ?_
  · rw [course_of_idle hterm hx hp, coming_of_buffer h hl hb, if_pos hacc]
    exact course_of_pending (f := g) hterm hx rfl
  · have := listingLoad_le g.listing
    rw [load_of_pending (f := g) hx rfl, load_of_idle hx hp, hlength]
    show 8 * (matching H.objects f.lister.keyPrefix (some s.key)).length + _ + _ ≤ _
    omega

/-- An object that is not accepted is no part of the course. -/
theorem passed_ok (hb : l.buffer = s :: buffer) (hacc : ¬ f.filter.accepts s = true) :
    TurnOK H f listed w
      (.again listed { f with listing := some { l with buffer }, lastKey := some s.key } w) := by
  let g : Feed := { f with listing := some { l with buffer }, lastKey := some s.key }
  obtain ⟨hpop, hlater, hlength⟩ := listed_ok h hl hb
  show TurnOK H f listed w (.again listed g w)
  refine .again ⟨rfl, ?_, hw, fun _ _ => rfl⟩ ?_ rfl ?_ ?_
  · exact ⟨hpop, hlater, .inl hx, by simp [g, hp], by simp [g, hx]⟩
  · rw [course_of_idle hterm hx hp, coming_of_buffer h hl hb, if_neg hacc]
    exact course_of_idle (f := g) hterm hx hp
  · exact fun _ => ⟨hx, hp, by simp [g]⟩
  · have := listingLoad_le g.listing
    rw [load_of_idle (f := g) hx hp, load_of_idle hx hp, hlength]
    show 8 * (matching H.objects f.lister.keyPrefix (some s.key)).length + _ + _ < _
    omega

/-- A turn that moves the listing on. -/
theorem search_ok (hr : Resumable H.persisted) : TurnOK H f listed w (f.search l listed w) := by
  unfold search
  rcases Listing.step_cases (h.listing l hl) hw.1 with ⟨s, buffer, hb, hstep⟩ | ⟨hnone, hstep⟩ |
    ⟨l', objects, hstep, hcovers, hb, hd, hprogress, hholds, hfaults⟩ |
    ⟨e, l', objects, hstep, hholds, hfaults⟩
  · simp only [hstep]
    split
    · rename_i hacc
      exact accepted_ok h hw hterm hx hp hl hr hb hacc
    · rename_i hacc
      exact passed_ok h hw hterm hx hp hl hb hacc
  · -- the end of the listing
    simp only [hstep]
    refine .again ⟨rfl, ?_, hw, fun _ _ => rfl⟩ rfl rfl ?_ ?_
    · exact ⟨by simp, h.unseen, h.single, by simp [hp], by simp [hx]⟩
    · exact fun _ => ⟨hx, hp, fun _ => hnone⟩
    · have := listingLoad_pos l
      rw [load_of_idle (f := { f with listing := none }) hx hp, load_of_idle hx hp, hl]
      show 8 * (f.unseen H).length + _ + 0 < _
      omega
  · -- a page, with an object or without further ones
    simp only [hstep]
    refine .again ⟨rfl, ?_, ⟨hholds, hw.2⟩, fun _ _ => rfl⟩ rfl ?_ ?_ ?_
    · refine ⟨?_, h.unseen, h.single, by simp [hp], by simp [hx]⟩
      rintro _ ⟨⟩
      exact hcovers
    · simp only [World.faults, hfaults]
    · exact fun _ => ⟨hx, hp, by simp⟩
    · have hbefore : listingLoad (some l) = 2 := by simp [listingLoad, hb, hd]
      have hafter : listingLoad (some l') = 1 := by
        rcases hprogress with hne | hdone
        · simp [listingLoad, hne]
        · simp [listingLoad, hdone]
      rw [load_of_idle (f := { f with listing := some l' }) hx hp, load_of_idle hx hp, hl,
        hbefore, hafter]
      show 8 * (f.unseen H).length + _ + 1 < _
      omega
  · -- a failure, after which the objects to come are listed again
    simp only [hstep]
    refine .outcome ⟨rfl, ?_, ⟨hholds, hw.2⟩, fun _ _ => rfl⟩ (.failure rfl ?_)
    · exact ⟨by simp, h.unseen, h.single, by simp [hp], by simp [hx]⟩
    · simp only [World.faults, hfaults]
      omega

end Search

/-- A turn that begins a listing. -/
theorem begin_ok (h : f.StateOK H w.cache) (hw : w.Holds f.lister.bucket H)
    (hx : f.current = none) (hp : f.pending = none) (hl : f.listing = none) :
    TurnOK H f false w
      (.again true { f with listing := some (f.lister.start f.lastKey) } w) := by
  refine .again ⟨rfl, ?_, hw, fun _ _ => rfl⟩ rfl rfl ?_ ?_
  · refine ⟨?_, h.unseen, h.single, by simp [hp], by simp [hx]⟩
    rintro _ ⟨⟩
    exact f.lister.covers_start H.objects f.lastKey
  · exact fun _ => ⟨hx, hp, by simp⟩
  · have := listingLoad_le (some (f.lister.start f.lastKey))
    rw [load_of_idle (f := { f with listing := some (f.lister.start f.lastKey) }) hx hp,
      load_of_idle hx hp, hl]
    show 8 * (f.unseen H).length + 0 + listingLoad (some (f.lister.start f.lastKey)) <
      8 * (f.unseen H).length + 4 + 0
    omega

/-- **Each turn keeps the state and accounts for the course.** -/
theorem turn_ok {listed : Bool} (h : f.StateOK H w.cache) (hw : w.Holds f.lister.bucket H)
    (hr : Resumable H.persisted) (hlisted : listed = true → f.Settled H) :
    TurnOK H f listed w (f.turn listed w) := by
  cases hterm : f.terminated with
  | true =>
    have hturn : f.turn listed w = .outcome none f w := by simp [turn, hterm]
    have hcourse : f.course H w.cache = f.finished := by
      unfold course finished
      rw [hterm]
      rfl
    rw [hturn]
    exact .outcome ⟨rfl, h, hw, fun _ _ => rfl⟩ (.nothing rfl hcourse rfl)
  | false =>
    cases hx : f.current with
    | some x =>
      have hturn : f.turn listed w = f.advance x w := by simp [turn, hterm, hx]
      have hnot : listed = false := by
        cases listed with
        | false => rfl
        | true => simpa [hx] using (hlisted rfl).current
      rw [hturn, hnot]
      exact advance_ok h hw hterm hx
    | none =>
      cases hp : f.pending with
      | some s =>
        have hturn : f.turn listed w = { f with pending := none }.take s w := by
          simp [turn, hterm, hx, hp]
        have hnot : listed = false := by
          cases listed with
          | false => rfl
          | true => simpa [hp] using (hlisted rfl).pending
        rw [hturn, hnot]
        exact take_ok h hw hr hterm hp
      | none =>
        cases hl : f.listing with
        | some l =>
          have hturn : f.turn listed w = f.search l listed w := by simp [turn, hterm, hx, hp, hl]
          rw [hturn]
          exact search_ok h hw hterm hx hp hl hr
        | none =>
          cases listed with
          | true =>
            have hturn : f.turn true w = .outcome none f w := by simp [turn, hterm, hx, hp, hl]
            have hcourse : f.course H w.cache = f.finished := by
              rw [course_of_idle hterm hx hp, coming, (hlisted rfl).unseen hl, finished, hterm]
              rfl
            rw [hturn]
            exact .outcome ⟨rfl, h, hw, fun _ _ => rfl⟩ (.nothing rfl hcourse rfl)
          | false =>
            have hturn : f.turn false w =
                .again true { f with listing := some (f.lister.start f.lastKey) } w := by
              simp [turn, hterm, hx, hp, hl]
            rw [hturn]
            exact begin_ok h hw hx hp hl

end Feed

end ObjectFeed
