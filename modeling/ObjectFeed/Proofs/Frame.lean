import ObjectFeed.Proofs.Turn

/-!
# Rules for turns

What holds after a turn or a pull, over stores that may answer anything, is shown case by case: one
rule for each operation of a feed says which cases there are.

* `Listing.step_keeps`, `RecordStream.next_keeps`: what a step changes of a store.
* `Feed.Turn.Leads`, `Feed.Turn.Keeps`: what holds after a turn, with and without an outcome.
* `Feed.take_leads`, `Feed.search_leads`, `Feed.advance_leads`, `Feed.turn_leads`: the cases of the
  operations.
* `Feed.pull_leads`: **what each turn keeps, a pull keeps.**
* `Feed.setup_pull`, `Feed.deferred_pull`: a pull changes neither the settings nor what is held
  back.
-/

namespace ObjectFeed

section Store

variable {σ : Type} [ObjectStore σ] {P : σ → Prop}

/-- What listing requests keep of a store, a step of a listing keeps. -/
theorem Listing.step_keeps (hlist : ∀ s r, P s → P (ObjectStore.list s r).2) (l : Listing)
    {store : σ} (h : P store) : P (l.step store).2.2 := by
  unfold step
  split
  · exact h
  · split
    · exact h
    · have hafter := hlist store l.request h
      split <;> simp_all

variable (hrelease : ∀ s, P s → P (ObjectStore.release s))

include hrelease

theorem RecordStream.giveBack_keeps (state : StreamState) {store : σ} (h : P store) :
    P (giveBack state store) := by
  unfold giveBack
  split
  · split
    · exact hrelease store h
    · exact h
  · exact h

theorem RecordStream.read_keeps (s : RecordStream) {store : σ} (h : P store) :
    P (s.read store).2.2 := by
  unfold read
  split
  · generalize Decoder.pull _ _ = out
    obtain ⟨p, n⟩ := out
    cases p with
    | record r d => exact h
    | ended | failed => exact giveBack_keeps hrelease _ h
  · exact h

section Fetch

variable (s : RecordStream) {store : σ} (hopened : s.state ≠ .pending → P store)
variable (hfetched : s.state = .pending → P (ObjectStore.fetch store s.bucket s.objectKey).2)

include hopened hfetched

theorem RecordStream.open_keeps : P (s.open store).2.2 := by
  unfold RecordStream.open
  split
  · rename_i hstate
    have hafter := hfetched hstate
    generalize ObjectStore.fetch store s.bucket s.objectKey = out at hafter
    obtain ⟨answer, store'⟩ := out
    cases answer with
    | error e => exact hafter
    | ok body =>
      simp only
      split
      · exact hrelease store' hafter
      · split
        · exact hafter
        · exact hrelease store' hafter
  · rename_i hstate
    exact hopened hstate

/-- What releases keep of a store, a stream keeps that has fetched its object, and one that has not
keeps what holds after the fetch. -/
theorem RecordStream.next_keeps : P (s.next store).2.2 := by
  have hopen := s.open_keeps hrelease hopened hfetched
  unfold next
  generalize s.open store = out at hopen
  obtain ⟨failure, s', store'⟩ := out
  cases failure with
  | some e => exact hopen
  | none => exact s'.read_keeps hrelease hopen

end Fetch

omit hrelease

variable (s : RecordStream) (store : σ)

theorem RecordStream.state_read (h : s.state ≠ .pending) :
    (s.read store).2.1.state ≠ .pending ∧ (s.read store).2.1.objectKey = s.objectKey := by
  unfold read
  split
  · generalize Decoder.pull _ _ = out
    obtain ⟨p, n⟩ := out
    cases p <;> simp [close]
  · exact ⟨h, rfl⟩

theorem RecordStream.state_open :
    (s.open store).2.1.state ≠ .pending ∧ (s.open store).2.1.objectKey = s.objectKey := by
  unfold RecordStream.open
  split
  · generalize ObjectStore.fetch store s.bucket s.objectKey = out
    obtain ⟨answer, store'⟩ := out
    cases answer with
    | error e => simp
    | ok body =>
      simp only
      split <;> simp
  · rename_i hstate
    exact ⟨hstate, rfl⟩

/-- After a call a stream has tried to fetch its object, which stays the same. -/
theorem RecordStream.state_next :
    (s.next store).2.1.state ≠ .pending ∧ (s.next store).2.1.objectKey = s.objectKey := by
  have hopen := s.state_open store
  unfold next
  generalize s.open store = out at hopen
  obtain ⟨failure, s', store'⟩ := out
  cases failure with
  | some e => exact hopen
  | none =>
    obtain ⟨hstate, hkey⟩ := s'.state_read store' hopen.1
    exact ⟨hstate, hkey.trans hopen.2⟩

variable {s store}

/-- A stream that reads on returns no failure of a store. -/
theorem RecordStream.decode_of_read {s' : RecordStream} {store' : σ} {e : Error}
    (h : s.read store = (some (.error e), s', store')) :
    ∃ e', e = .decode s.offset.key.objectKey e' := by
  unfold read at h
  split at h
  · generalize Decoder.pull _ _ = out at h
    obtain ⟨p, n⟩ := out
    cases p with
    | record | ended => simp [close] at h
    | failed e' =>
      obtain rfl : Error.decode s.offset.key.objectKey e' = e := by
        simpa [close, Offset.raiseTo] using congrArg Prod.fst h
      exact ⟨e', rfl⟩
  · simp at h

/-- A stream fails with the failure of the fetch, or because the object is malformed. -/
theorem RecordStream.error_of_next {s' : RecordStream} {store' : σ} {e : Error}
    (h : s.next store = (some (.error e), s', store')) :
    (∃ e' store'', e = .store e' ∧
      ObjectStore.fetch store s.bucket s.objectKey = (.error e', store'')) ∨
      ∃ e', e = .decode s.offset.key.objectKey e' := by
  unfold next at h
  obtain ⟨⟨failure, s₁, store₁⟩, hopen⟩ : ∃ out, s.open store = out := ⟨_, rfl⟩
  rw [hopen] at h
  unfold RecordStream.open at hopen
  split at hopen
  · split at hopen
    · rename_i e' store'' hfetch
      obtain ⟨rfl, -⟩ := Prod.mk.inj hopen
      obtain rfl : Error.store e' = e := by simpa using congrArg Prod.fst h
      exact .inl ⟨e', store'', rfl, hfetch⟩
    · split at hopen
      · rename_i e' _
        obtain ⟨rfl, -⟩ := Prod.mk.inj hopen
        exact .inr ⟨e', by simpa using (congrArg Prod.fst h).symm⟩
      · obtain ⟨rfl, hopened⟩ := Prod.mk.inj hopen
        obtain ⟨rfl, -⟩ := Prod.mk.inj hopened
        exact .inr (decode_of_read (s := { s with
          state := .reading _, resumeFrom := s.offset.count, offset := s.offset.rewind }) h)
  · obtain ⟨rfl, hopened⟩ := Prod.mk.inj hopen
    obtain ⟨rfl, -⟩ := Prod.mk.inj hopened
    simp only at h
    exact .inr (decode_of_read h)

/-- A failure of a store is one of the fetch. -/
theorem RecordStream.fetch_of_next {s' : RecordStream} {store' : σ} {e : StoreError}
    (h : s.next store = (some (.error (.store e)), s', store')) :
    ∃ store'', ObjectStore.fetch store s.bucket s.objectKey = (.error e, store'') := by
  rcases error_of_next h with ⟨e', store'', he, hfetch⟩ | ⟨e', he⟩
  · obtain rfl : e = e' := by simpa using he
    exact ⟨store'', hfetch⟩
  · cases he

end Store

/-- A look-up fails with the failure of the store, or because what is known of the identity is
malformed. -/
theorem OffsetCache.error_of_get {τ : Type} [OffsetStore τ] {c c' : OffsetCache} {t t' : τ}
    {k : OffsetKey} {e : Error} (h : c.get t k = (.error e, c', t')) :
    (∃ e', e = .store e') ∨ ∃ e', e = .offset e' := by
  unfold get getWith at h
  generalize c.load t k = out at h
  obtain ⟨found, c₁, t₁⟩ := out
  rcases found with e' | _ | p
  · exact .inl ⟨e', by simpa using (congrArg Prod.fst h).symm⟩
  · simp at h
  · have hp : (Offset.ofProperties p).mapError Error.offset = .error e := congrArg Prod.fst h
    cases ho : Offset.ofProperties p with
    | ok o => simp [ho, Except.mapError] at hp
    | error e' => exact .inr ⟨e', by simpa [ho, Except.mapError] using hp.symm⟩

namespace Feed

variable {σ τ : Type}

/-- An outcome is followed by `Q`, and another turn by `P`. -/
def Turn.Leads (P : Bool → Feed → World σ τ → Prop)
    (Q : Option (Except Error Delivery) → Feed → World σ τ → Prop) : Turn σ τ → Prop
  | .outcome r f w => Q r f w
  | .again listed f w => P listed f w

/-- A turn leads to what has a property, with and without an outcome. -/
abbrev Turn.Keeps (I : Feed → World σ τ → Prop) (t : Turn σ τ) : Prop :=
  t.Leads (fun _ => I) (fun _ => I)

variable {P : Bool → Feed → World σ τ → Prop}
variable {Q : Option (Except Error Delivery) → Feed → World σ τ → Prop}

theorem Turn.Leads.mono {P' : Bool → Feed → World σ τ → Prop}
    {Q' : Option (Except Error Delivery) → Feed → World σ τ → Prop} {t : Turn σ τ}
    (h : t.Leads P Q) (hP : ∀ listed f w, P listed f w → P' listed f w)
    (hQ : ∀ r f w, Q r f w → Q' r f w) : t.Leads P' Q' := by
  cases t with
  | outcome r f w => exact hQ r f w h
  | again listed f w => exact hP listed f w h

variable {f : Feed} {w : World σ τ} {listed : Bool}

/-- An object without an identity is passed over. Otherwise its offset is looked up. -/
theorem take_leads [OffsetStore τ] {s : Summary}
    (hpassed : f.identify s.key = none → P false f w)
    (hfound : ∀ k o cache offsets, f.identify s.key = some k →
      w.cache.get w.offsets k = (.ok o, cache, offsets) →
      P false
        { f with current := some ⟨s, RecordStream.start f.settings f.lister.bucket s.key o⟩ }
        { w with cache, offsets })
    (hrefused : ∀ k e cache offsets, f.identify s.key = some k →
      w.cache.get w.offsets k = (.error (.store e), cache, offsets) →
      Q (some (.error (.store e))) (f.afterStoreError s e) { w with cache, offsets })
    (hfatal : ∀ k e cache offsets, f.identify s.key = some k →
      w.cache.get w.offsets k = (.error (.offset e), cache, offsets) →
      Q (some (.error (.offset e))) { f with terminated := true } { w with cache, offsets }) :
    (f.take s w).Leads P Q := by
  unfold take
  split
  · rename_i hi
    exact hpassed hi
  · rename_i k hi
    split
    · rename_i o cache offsets hget
      exact hfound k o cache offsets hi hget
    · rename_i e cache offsets hget
      exact hrefused k e cache offsets hi hget
    · rename_i e cache offsets hne hget
      rcases OffsetCache.error_of_get hget with ⟨e', rfl⟩ | ⟨e', rfl⟩
      · exact (hne e' rfl).elim
      · exact hfatal k e' cache offsets hi hget

/-- An object that is listed is taken up or passed over. -/
theorem search_leads [ObjectStore σ] [OffsetStore τ] {l : Listing}
    (hitem : ∀ s l' objects, l.step w.objects = (.item s, l', objects) →
      (f.filter.accepts s = true →
        ({ f with listing := some l', lastKey := some s.key }.take s
          { w with objects }).Leads P Q) ∧
      (f.filter.accepts s = false →
        P listed { f with listing := some l', lastKey := some s.key } { w with objects }))
    (hfetched : ∀ l' objects, l.step w.objects = (.fetched, l', objects) →
      P listed { f with listing := some l' } { w with objects })
    (hended : ∀ l' objects, l.step w.objects = (.ended, l', objects) →
      P listed { f with listing := none } { w with objects })
    (hfailed : ∀ e l' objects, l.step w.objects = (.failed e, l', objects) →
      Q (some (.error (.store e))) { f with listing := none } { w with objects }) :
    (f.search l listed w).Leads P Q := by
  unfold search
  split
  · rename_i s l' objects hstep
    simp only
    split
    · rename_i hacc
      exact (hitem s l' objects hstep).1 hacc
    · rename_i hacc
      exact (hitem s l' objects hstep).2 (Bool.eq_false_iff.2 hacc)
  · rename_i l' objects hstep
    exact hfetched l' objects hstep
  · rename_i l' objects hstep
    exact hended l' objects hstep
  · rename_i e l' objects hstep
    exact hfailed e l' objects hstep

/-- After a failure of a store the object may stand back. After another one the feed ends, or goes
on without the object. -/
theorem afterStreamError_leads {s : Summary} {e : Error}
    (hrefused : ∀ e', e = .store e' →
      Q (some (.error (.store e'))) (f.afterStoreError s e') w)
    (hfatal : e.isStore = false → f.tolerance = .none →
      Q (some (.error e)) { f with terminated := true } w)
    (hpassed : e.isStore = false → f.tolerance = .all →
      P false { f with filter := f.filter.markFailed s.key } w) :
    (f.afterStreamError s e w).Leads P Q := by
  unfold afterStreamError
  split
  · exact hrefused _ rfl
  · rename_i hne
    have hstore : e.isStore = false := by
      cases e with
      | store e' => exact (hne e' rfl).elim
      | _ => rfl
    split
    · rename_i htol
      exact hfatal hstore htol
    · rename_i htol
      exact hpassed hstore htol

/-- The stream of the current object delivers a record, fails or ends. -/
theorem advance_leads [ObjectStore σ] {x : InFlight}
    (hrecord : ∀ r stream objects, x.stream.next w.objects = (some (.ok r), stream, objects) →
      Q (some (.ok (deliver { x with stream } r))) { f with current := some { x with stream } }
        { w with objects, cache := w.cache.update stream.offset })
    (hfailed : ∀ e stream objects, x.stream.next w.objects = (some (.error e), stream, objects) →
      ({ f with current := none }.afterStreamError x.summary e
        { w with objects := RecordStream.giveBack stream.state objects }).Leads P Q)
    (hended : ∀ stream objects, x.stream.next w.objects = (none, stream, objects) →
      P false { f with current := none }
        { w with objects, cache := w.cache.update stream.offset }) :
    (f.advance x w).Leads P Q := by
  unfold advance
  split
  · rename_i r stream objects hnext
    exact hrecord r stream objects hnext
  · rename_i e stream objects hnext
    exact hfailed e stream objects hnext
  · rename_i stream objects hnext
    exact hended stream objects hnext

variable [ObjectStore σ] [OffsetStore τ]

/-- A feed that has not ended reads on, takes up the object to be read next, moves the listing on or
begins one, unless the pull has begun one before. -/
theorem turn_leads (hended : f.terminated = true → Q none f w)
    (hread : ∀ x, f.terminated = false → f.current = some x → (f.advance x w).Leads P Q)
    (htake : ∀ s, f.terminated = false → f.current = none → f.pending = some s →
      ({ f with pending := none }.take s w).Leads P Q)
    (hsearch : ∀ l, f.terminated = false → f.current = none → f.pending = none →
      f.listing = some l → (f.search l listed w).Leads P Q)
    (hnothing : f.terminated = false → f.current = none → f.pending = none → f.listing = none →
      listed = true → Q none f w)
    (hbegin : f.terminated = false → f.current = none → f.pending = none → f.listing = none →
      listed = false → P true { f with listing := some (f.lister.start f.lastKey) } w) :
    (f.turn listed w).Leads P Q := by
  unfold turn
  split
  · rename_i hterm
    exact hended hterm
  · rename_i hterm
    have hterm := Bool.eq_false_iff.2 hterm
    split
    · rename_i x hx
      exact hread x hterm hx
    · rename_i s hx hp
      exact htake s hterm hx hp
    · rename_i l hx hp hl
      exact hsearch l hterm hx hp hl
    · rename_i hx hp hl
      split
      · rename_i hlisted
        exact hnothing hterm hx hp hl hlisted
      · rename_i hlisted
        exact hbegin hterm hx hp hl (Bool.eq_false_iff.2 hlisted)

/-- **What each turn keeps, a pull keeps.** What is kept may speak of the number of turns left. -/
theorem pull_leads {P : Nat → Bool → Feed → World σ τ → Prop}
    (hturn : ∀ limit listed f w, P (limit + 1) listed f w →
      (f.turn listed w).Leads (P limit) Q)
    (hcut : ∀ listed f w, P 0 listed f w → Q none f w) (limit : Nat) (h : P limit listed f w) :
    Q (f.pull limit listed w).1 (f.pull limit listed w).2.1 (f.pull limit listed w).2.2 := by
  induction limit generalizing listed f w with
  | zero => exact hcut listed f w h
  | succ limit ih =>
    have hleads := hturn limit listed f w h
    unfold pull
    generalize f.turn listed w = t at hleads ⊢
    cases t with
    | outcome r f w => exact hleads
    | again listed f w => exact ih hleads

/-- What turns leave alone: the settings and the error that is held back. -/
def Alike (f g : Feed) : Prop := g.setup = f.setup ∧ g.deferred = f.deferred

theorem alike_turn {g : Feed} (h : f.Alike g) (listed : Bool) (w : World σ τ) :
    (g.turn listed w).Keeps fun g _ => f.Alike g := by
  have hrefused : ∀ {g : Feed}, f.Alike g → ∀ s e, f.Alike (g.afterStoreError s e) := by
    intro g h s e
    unfold afterStoreError
    split <;> exact h
  have htake : ∀ {g : Feed}, f.Alike g → ∀ (s : Summary) (w : World σ τ),
      (g.take s w).Keeps fun g _ => f.Alike g := fun h s w =>
    take_leads (fun _ => h) (fun _ _ _ _ _ _ => h) (fun _ _ _ _ _ _ => hrefused h s _)
      fun _ _ _ _ _ _ => h
  refine turn_leads (fun _ => h) ?_ (fun s _ _ _ => htake (g := { g with pending := none }) h s w)
    ?_ (fun _ _ _ _ _ => h) fun _ _ _ _ _ => h
  · intro x _ _
    refine advance_leads (fun _ _ _ _ => h) ?_ fun _ _ _ => h
    intro e stream objects _
    exact afterStreamError_leads (fun _ _ => hrefused (g := { g with current := none }) h _ _)
      (fun _ _ => h) fun _ _ => h
  · intro l _ _ _ _
    refine search_leads ?_ (fun _ _ _ => h) (fun _ _ _ => h) fun _ _ _ _ => h
    intro s l' objects _
    exact ⟨fun _ => htake (g := { g with listing := some l', lastKey := some s.key }) h s _,
      fun _ => h⟩

variable (limit : Nat) (listed : Bool) (f : Feed) (w : World σ τ)

theorem alike_pull : f.Alike (f.pull limit listed w).2.1 :=
  pull_leads (P := fun _ _ g _ => f.Alike g) (Q := fun _ g _ => f.Alike g)
    (fun _ listed _ w h => alike_turn h listed w) (fun _ _ _ h => h) limit ⟨rfl, rfl⟩

theorem setup_pull : (f.pull limit listed w).2.1.setup = f.setup :=
  (alike_pull limit listed f w).1

theorem deferred_pull : (f.pull limit listed w).2.1.deferred = f.deferred :=
  (alike_pull limit listed f w).2

end Feed

end ObjectFeed
