import ObjectFeed.Proofs.Auditing
import ObjectFeed.Proofs.Ending

/-!
# The exclusion of malformed objects

A feed that tolerates malformed objects excludes their keys. An excluded key stays excluded, however
its object might be reached: it may be listed again, and it may have been set aside to be read next.

* `Feed.Moment.Raises`: the object with a key turns out to be malformed.
* `Feed.raises_cases`: **a turn excludes a key just when that happens.**
* `Feed.failed_path`: **the keys that turns in a row exclude.**
* `Feed.Barred`: since a state before, nothing was asked for that belongs to an excluded key.
* `Feed.barred_turn`, `Feed.barred_path`: **turns keep that.**
-/

namespace ObjectFeed

namespace Feed

variable {σ τ : Type} [ObjectStore σ] [OffsetStore τ]

/-- The object with the key turns out to be malformed. -/
def Moment.Raises (m : Moment σ τ) (key : String) : Prop :=
  ∃ x k e, m.feed.current = some x ∧ x.summary.key = key ∧ m.met = some (.decode k e)

section Filter

variable {f : Feed} {w : World σ τ}

theorem filter_afterStoreError (f : Feed) (s : Summary) (e : StoreError) :
    (f.afterStoreError s e).filter = f.filter := by
  unfold afterStoreError
  split <;> rfl

omit [ObjectStore σ] in
/-- Taking up an object excludes no key. -/
theorem filter_take (f : Feed) (s : Summary) (w : World σ τ) :
    (f.take s w).Keeps fun g _ => g.filter = f.filter :=
  take_leads (fun _ => rfl) (fun _ _ _ _ _ _ => rfl)
    (fun _ _ _ _ _ _ => filter_afterStoreError ..) fun _ _ _ _ _ _ => rfl

theorem filter_search (f : Feed) (l : Listing) (listed : Bool) (w : World σ τ) :
    (f.search l listed w).Keeps fun g _ => g.filter = f.filter := by
  refine search_leads ?_ (fun _ _ _ => rfl) (fun _ _ _ => rfl) fun _ _ _ _ => rfl
  intro s l' objects _
  exact ⟨fun _ => filter_take { f with listing := some l', lastKey := some s.key } s _,
    fun _ => rfl⟩

end Filter

/-- A turn that reads no object excludes no key. -/
theorem filter_turn_of_idle {f : Feed} (hx : f.current = none) (listed : Bool) (w : World σ τ) :
    (f.turn listed w).feed.filter = f.filter := by
  suffices h : (f.turn listed w).Keeps fun g _ => g.filter = f.filter from
    (Turn.keeps_iff (I := fun g _ => g.filter = f.filter)).1 h
  refine turn_leads (fun _ => rfl) ?_ (fun s _ _ _ => filter_take { f with pending := none } s w)
    (fun l _ _ _ _ => filter_search f l listed w) (fun _ _ _ _ _ => rfl) fun _ _ _ _ _ => rfl
  intro x _ hx'
  rw [hx] at hx'
  cases hx'

omit [OffsetStore τ] in
/-- An object that is being read is dropped and its key excluded if it is malformed and that is
tolerated. Otherwise no key is excluded. -/
theorem advance_cases (f : Feed) (x : InFlight) (w : World σ τ) :
    (∃ objects k e, f.tolerance = .all ∧ x.error? w = some (.decode k e) ∧
      f.advance x w = .again false
        { f with current := none, filter := f.filter.markFailed x.summary.key }
        { w with objects }) ∨
    (f.advance x w).feed.filter = f.filter ∧
      (f.tolerance = .all → ∀ k e, x.error? w ≠ some (.decode k e)) := by
  obtain ⟨⟨r, stream, objects⟩, hnext⟩ : ∃ out, x.stream.next w.objects = out := ⟨_, rfl⟩
  rcases r with _ | e | r
  · have herror : x.error? w = none := by simp only [InFlight.error?, hnext]
    exact .inr ⟨by simp only [advance, hnext, Turn.feed], by simp [herror]⟩
  · have herror : x.error? w = some e := by simp only [InFlight.error?, hnext]
    rcases RecordStream.error_of_next hnext with ⟨e', -, rfl, -⟩ | ⟨e', rfl⟩
    · -- the object may be read again
      refine .inr ⟨?_, by simp [herror]⟩
      simp only [advance, hnext, afterStreamError, Turn.feed]
      exact filter_afterStoreError { f with current := none } x.summary e'
    · cases htol : f.tolerance with
      | none =>
        refine .inr ⟨?_, by simp⟩
        simp only [advance, hnext, afterStreamError, htol, Turn.feed]
      | all =>
        refine .inl ⟨RecordStream.giveBack stream.state objects, _, e', rfl, herror, ?_⟩
        simp only [advance, hnext, afterStreamError, htol, RecordStream.close]
  · have herror : x.error? w = none := by simp only [InFlight.error?, hnext]
    exact .inr ⟨by simp only [advance, hnext, Turn.feed], by simp [herror]⟩

/-- **A turn excludes a key just when its object turns out to be malformed**, if the feed tolerates
that. It drops the object then, and leaves the offsets and the cache alone. -/
theorem raises_cases (m : Moment σ τ) :
    (∃ x objects, m.feed.current = some x ∧ m.feed.tolerance = .all ∧ m.Raises x.summary.key ∧
      m.turn = .again false
        { m.feed with current := none, filter := m.feed.filter.markFailed x.summary.key }
        { m.world with objects }) ∨
    m.turn.feed.filter = m.feed.filter ∧
      (m.feed.tolerance = .all → ∀ key, ¬ m.Raises key) := by
  cases hterm : m.feed.terminated with
  | true =>
    have hturn : m.turn = .outcome none m.feed m.world := turn_ended hterm m.listed m.world
    have hmet : m.met = none := by simp [Moment.met, hterm]
    exact .inr ⟨by rw [hturn]; rfl, by simp [Moment.Raises, hmet]⟩
  | false =>
    cases hx : m.feed.current with
    | none => exact .inr ⟨filter_turn_of_idle hx m.listed m.world, by simp [Moment.Raises, hx]⟩
    | some x =>
      have hturn : m.turn = m.feed.advance x m.world := by simp [Moment.turn, turn, hterm, hx]
      have hmet : m.met = x.error? m.world := by simp [Moment.met, hterm, hx]
      rw [hturn]
      rcases advance_cases m.feed x m.world with
        ⟨objects, k, e, htol, herror, hadvance⟩ | ⟨hfilter, hnone⟩
      · exact .inl ⟨x, objects, rfl, htol, ⟨x, k, e, hx, rfl, hmet.trans herror⟩, hadvance⟩
      · refine .inr ⟨hfilter, ?_⟩
        rintro htol key ⟨y, k, e, -, -, hraises⟩
        exact hnone htol k e (hmet.symm.trans hraises)

theorem contains_markFailed (filter : TaskFilter) (key key' : String) :
    (filter.markFailed key).failed.contains key' = true ↔
      filter.failed.contains key' = true ∨ key = key' := by
  unfold TaskFilter.markFailed
  by_cases h : key' = key
  · subst h
    simp [Dict.contains, Dict.get?_insert]
  · simp [Dict.contains, Dict.get?_insert, h, Ne.symm h]

/-- The keys that a turn excludes. -/
theorem failed_turn (m : Moment σ τ) (key : String) :
    m.turn.feed.filter.failed.contains key = true ↔
      m.feed.filter.failed.contains key = true ∨ m.feed.tolerance = .all ∧ m.Raises key := by
  rcases raises_cases m with ⟨x, objects, hx, htol, hraises, hturn⟩ | ⟨hfilter, hnone⟩
  · rw [hturn, Turn.feed, contains_markFailed]
    refine or_congr Iff.rfl ⟨?_, ?_⟩
    · rintro rfl
      exact ⟨htol, hraises⟩
    · rintro ⟨-, y, k, e, hy, rfl, -⟩
      rw [hx] at hy
      cases hy
      rfl
  · rw [hfilter]
    refine ⟨.inl, ?_⟩
    rintro (h | ⟨htol, hraises⟩)
    · exact h
    · exact absurd hraises (hnone htol key)

/-- **The excluded keys are those that were excluded before and those of the objects that turned out
to be malformed**, if the feed tolerates that. -/
theorem failed_path {f f' : Feed} {w w' : World σ τ} {ms : List (Moment σ τ)}
    (hpath : Path f w ms f' w') (key : String) :
    f'.filter.failed.contains key = true ↔
      f.filter.failed.contains key = true ∨ f.tolerance = .all ∧ ∃ m ∈ ms, m.Raises key := by
  induction hpath with
  | nil => simp
  | @turn f f' w w' ms listed _ ih =>
    let m : Moment σ τ := ⟨listed, f, w⟩
    have htol : m.turn.feed.tolerance = f.tolerance := tolerance_congr (setup_turn f listed w)
    have ih : f'.filter.failed.contains key = true ↔ m.turn.feed.filter.failed.contains key = true ∨
        m.turn.feed.tolerance = .all ∧ ∃ m' ∈ ms, m'.Raises key := ih
    rw [ih, htol, failed_turn m, or_assoc, ← and_or_left]
    simp [m]
  | held _ ih => exact ih
  | @close f f' w w' ms _ ih =>
    have htol : (f.close w).1.tolerance = f.tolerance := tolerance_congr (setup_close f w)
    have hfilter : (f.close w).1.filter = f.filter := by
      rcases close_cases f w with ⟨-, hclose⟩ | ⟨x, -, hclose⟩
      · rw [hclose]
      · rw [hclose]
    rw [ih, htol, hfilter]

/-- No object that the feed has taken up or set aside has an excluded key. -/
structure Excludes (f : Feed) : Prop where
  single : f.current = none ∨ f.pending = none
  pending : ∀ s, f.pending = some s → f.filter.failed.contains s.key = false
  current : ∀ x, f.current = some x →
    f.filter.failed.contains x.summary.key = false ∧ x.stream.objectKey = x.summary.key

/-- Since a state before, no excluded key has been admitted again, and nothing was asked for that
belongs to a key that was excluded then. -/
structure Barred (g : Feed) (before : AuditedWorld σ τ) (f : Feed) (w : AuditedWorld σ τ) :
    Prop where
  excludes : f.Excludes
  failed : ∀ key, g.filter.failed.contains key = true → f.filter.failed.contains key = true
  spares : ∀ key, g.filter.failed.contains key = true → before.Spares key w

section Barred

variable {before w : AuditedWorld σ τ} {g f : Feed}

omit [ObjectStore σ] [OffsetStore τ] in
theorem Excludes.barred (h : f.Excludes) (w : AuditedWorld σ τ) : Barred f w f w :=
  ⟨h, fun _ hkey => hkey, fun _ _ => ⟨.refl _, .refl _⟩⟩

omit [ObjectStore σ] [OffsetStore τ] in
/-- A key that is not excluded is none of those that were. -/
theorem Barred.ne (h : Barred g before f w) {key key' : String}
    (hkey : g.filter.failed.contains key = true)
    (hkey' : f.filter.failed.contains key' = false) : key' ≠ key := by
  rintro rfl
  rw [h.failed key' hkey] at hkey'
  cases hkey'

omit [ObjectStore σ] [OffsetStore τ] in
theorem Barred.afterStoreError (h : Barred g before f w) (hx : f.current = none) {s : Summary}
    (hs : f.filter.failed.contains s.key = false) (e : StoreError) :
    Barred g before (f.afterStoreError s e) w := by
  unfold Feed.afterStoreError
  split
  · refine ⟨⟨.inl hx, ?_, h.excludes.current⟩, h.failed, h.spares⟩
    rintro _ ⟨⟩
    exact hs
  · exact h

omit [ObjectStore σ] in
/-- An object whose key is not excluded is taken up. -/
theorem barred_take (h : Barred g before f w) (hx : f.current = none) (hp : f.pending = none)
    {s : Summary} (hs : f.filter.failed.contains s.key = false) :
    (f.take s w).Keeps (Barred g before) := by
  have hlooked : ∀ k out cache offsets, f.identify s.key = some k →
      w.cache.get w.offsets k = (out, cache, offsets) →
      Barred g before f { w with cache, offsets } := by
    intro k out cache offsets hk hget
    refine ⟨h.excludes, h.failed, fun key hkey => ⟨(h.spares key hkey).1, ?_⟩⟩
    have hother : k.objectKey ≠ key := by
      rw [identify_objectKey hk]
      exact h.ne hkey hs
    have hkept := w.cache.get_keeps (P := before.offsets.Spares key) (h.spares key hkey).2
      ((h.spares key hkey).2.lookup hother)
    rw [hget] at hkept
    exact hkept
  refine take_leads (fun _ => h) ?_ ?_ ?_
  · intro k o cache offsets hk hget
    refine ⟨⟨.inr hp, h.excludes.pending, ?_⟩, h.failed, (hlooked _ _ _ _ hk hget).spares⟩
    rintro x ⟨⟩
    exact ⟨hs, rfl⟩
  · intro k e cache offsets hk hget
    exact (hlooked _ _ _ _ hk hget).afterStoreError hx hs e
  · intro k e cache offsets hk hget
    exact ⟨⟨.inl hx, h.excludes.pending, h.excludes.current⟩, h.failed,
      (hlooked _ _ _ _ hk hget).spares⟩

/-- The listing may list any keys. -/
theorem barred_search (h : Barred g before f w) (hx : f.current = none) (hp : f.pending = none)
    (l : Listing) (listed : Bool) :
    (f.search l listed w).Keeps (Barred g before) := by
  have hafter : ∀ step l' objects, l.step w.objects = (step, l', objects) →
      ∀ listing lastKey, Barred g before { f with listing, lastKey } { w with objects } := by
    intro step l' objects hstep listing lastKey
    refine ⟨⟨h.excludes.single, h.excludes.pending, h.excludes.current⟩, h.failed,
      fun key hkey => ⟨?_, (h.spares key hkey).2⟩⟩
    have hkept := Listing.step_keeps (P := before.objects.Spares key) (fun _ _ hs => hs) l
      (h.spares key hkey).1
    rw [hstep] at hkept
    exact hkept
  refine search_leads ?_ (fun _ _ hstep => hafter _ _ _ hstep _ _)
    (fun _ _ hstep => hafter _ _ _ hstep _ _) fun _ _ _ hstep => hafter _ _ _ hstep _ _
  intro s l' objects hstep
  have hlisted := hafter _ _ _ hstep (some l') (some s.key)
  refine ⟨fun hacc => barred_take hlisted hx hp ?_, fun _ => hlisted⟩
  simp only [TaskFilter.accepts, Bool.and_eq_true, Bool.not_eq_true'] at hacc
  exact hacc.2

omit [OffsetStore τ] in
theorem spares_release {key : String} {b s : Audited σ} (h : b.Spares key s) :
    b.Spares key (ObjectStore.release s) :=
  h.note s.accesses_release (by simp [Access.key?])

omit [OffsetStore τ] in
/-- The object that is being read may be fetched, and it is released. -/
theorem barred_advance (h : Barred g before f w) {x : InFlight} (hx : f.current = some x) :
    (f.advance x w).Keeps (Barred g before) := by
  obtain ⟨hfailed, hkey⟩ := h.excludes.current x hx
  have hp : f.pending = none := h.excludes.single.resolve_left (by simp [hx])
  have hspared : ∀ out stream objects, x.stream.next w.objects = (out, stream, objects) →
      ∀ key, g.filter.failed.contains key = true → before.objects.Spares key objects := by
    intro out stream objects hnext key hg
    have hkept := RecordStream.next_keeps (P := before.objects.Spares key)
      (fun _ hs => spares_release hs) x.stream (fun _ => (h.spares key hg).1) fun _ => ?_
    · rw [hnext] at hkept
      exact hkept
    · obtain ⟨a, ha, haccesses⟩ :=
        w.objects.accesses_fetch x.stream.bucket x.stream.objectKey
      refine (h.spares key hg).1.note haccesses ?_
      rw [ha, hkey]
      simpa using h.ne hg hfailed
  refine advance_leads ?_ ?_ ?_
  · intro r stream objects hnext
    refine ⟨⟨.inr hp, h.excludes.pending, ?_⟩, h.failed,
      fun key hg => ⟨hspared _ _ _ hnext key hg, (h.spares key hg).2⟩⟩
    rintro _ ⟨⟩
    have hsame := (x.stream.state_next w.objects).2
    rw [hnext] at hsame
    exact ⟨hfailed, hsame.trans hkey⟩
  · intro e stream objects hnext
    have hdropped : Barred g before { f with current := none }
        { w with objects := RecordStream.giveBack stream.state objects } :=
      ⟨⟨.inl rfl, h.excludes.pending, by simp⟩, h.failed, fun key hg =>
        ⟨RecordStream.giveBack_keeps (fun _ hs => spares_release hs) _ (hspared _ _ _ hnext key hg),
          (h.spares key hg).2⟩⟩
    refine afterStreamError_leads (fun e' _ => hdropped.afterStoreError rfl hfailed e') ?_ ?_
    · intro _ _
      exact ⟨⟨.inl rfl, h.excludes.pending, by simp⟩, h.failed, hdropped.spares⟩
    · intro _ _
      refine ⟨⟨.inl rfl, by simp [hp], by simp⟩, fun key hg => ?_, hdropped.spares⟩
      exact (contains_markFailed f.filter x.summary.key key).2 (.inl (h.failed key hg))
  · intro stream objects hnext
    exact ⟨⟨.inl rfl, h.excludes.pending, by simp⟩, h.failed,
      fun key hg => ⟨hspared _ _ _ hnext key hg, (h.spares key hg).2⟩⟩

/-- **A turn asks for nothing that belongs to an excluded key**, whatever the stores answer. -/
theorem barred_turn (h : Barred g before f w) (listed : Bool) :
    (f.turn listed w).Keeps (Barred g before) := by
  refine turn_leads (fun _ => h) (fun x _ hx => barred_advance h hx) ?_
    (fun l _ hx hp _ => barred_search h hx hp l listed) (fun _ _ _ _ _ => h) fun _ _ _ _ _ => ?_
  · intro s _ hx hp
    refine barred_take (f := { f with pending := none }) ?_ hx rfl (h.excludes.pending s hp)
    exact ⟨⟨.inl hx, by simp, h.excludes.current⟩, h.failed, h.spares⟩
  · exact ⟨⟨h.excludes.single, h.excludes.pending, h.excludes.current⟩, h.failed, h.spares⟩

omit [OffsetStore τ] in
theorem barred_close (h : Barred g before f w) :
    Barred g before (f.close w).1 (f.close w).2 := by
  rcases close_cases f w with ⟨-, hclose⟩ | ⟨x, hx, hclose⟩
  · rw [hclose]
    exact h
  · rw [hclose]
    refine ⟨⟨.inl rfl, ?_, by simp⟩, h.failed, fun key hg => ⟨?_, (h.spares key hg).2⟩⟩
    · rintro _ ⟨⟩
      exact (h.excludes.current x hx).1
    · exact RecordStream.giveBack_keeps (fun _ hs => spares_release hs) _ (h.spares key hg).1

/-- **Nothing is asked for that belongs to an excluded key**, from any state on that excludes it. -/
theorem barred_path {f' : Feed} {w' : AuditedWorld σ τ}
    {ms : List (Moment (Audited σ) (AuditedOffsets τ))} (hpath : Path f w ms f' w')
    (h : f.Excludes) : Barred f w f' w' ∧ ∀ m ∈ ms, m.feed.Excludes := by
  obtain ⟨hend, hmoments⟩ := hpath.keeps (I := Barred f w)
    (fun _ listed _ hg => barred_turn hg listed)
    (fun _ _ _ hg => ⟨⟨hg.excludes.single, hg.excludes.pending, hg.excludes.current⟩, hg.failed,
      hg.spares⟩) (fun _ _ hg => barred_close hg) (h.barred w)
  exact ⟨hend, fun m hm => (hmoments m hm).excludes⟩

end Barred

end Feed

end ObjectFeed
