import ObjectFeed.Feed

/-!
# Views of stores

A view of a store is a map to another one that answers alike, such as the one that forgets a record
of what the store was asked. A feed does the same over a store as over a view of it.

* `ObjectView`, `OffsetView`: maps between stores that answer alike.
* `Listing.step_view`, `RecordStream.next_view`: a step does the same over a view.
* `Feed.pull_view`: **a feed does the same over a view of the stores.**
-/

namespace ObjectFeed

variable {σ σ' τ τ' : Type} [ObjectStore σ] [ObjectStore σ'] [OffsetStore τ] [OffsetStore τ']

/-- A map between object stores that answer alike. -/
structure ObjectView (φ : σ → σ') : Prop where
  list (s : σ) (r : ListRequest) : ObjectStore.list (φ s) r =
    ((ObjectStore.list s r).1, φ (ObjectStore.list s r).2)
  fetch (s : σ) (bucket key : String) : ObjectStore.fetch (φ s) bucket key =
    ((ObjectStore.fetch s bucket key).1, φ (ObjectStore.fetch s bucket key).2)
  release (s : σ) : ObjectStore.release (φ s) = φ (ObjectStore.release s)

/-- A map between offset stores that answer alike. -/
structure OffsetView (ψ : τ → τ') : Prop where
  lookup (s : τ) (identity : Properties) : OffsetStore.lookup (ψ s) identity =
    ((OffsetStore.lookup s identity).1, ψ (OffsetStore.lookup s identity).2)

theorem OffsetView.refl : OffsetView (id : τ → τ) := ⟨fun _ _ => rfl⟩

/-- The world with other stores. -/
def World.view (φ : σ → σ') (ψ : τ → τ') (w : World σ τ) : World σ' τ' :=
  { objects := φ w.objects, offsets := ψ w.offsets, cache := w.cache }

section Objects

variable {φ : σ → σ'} (hφ : ObjectView φ)

include hφ

theorem Listing.step_view (l : Listing) (s : σ) :
    l.step (φ s) = ((l.step s).1, (l.step s).2.1, φ (l.step s).2.2) := by
  unfold step
  cases l.buffer with
  | cons x buffer => rfl
  | nil =>
    cases l.done with
    | true => rfl
    | false =>
      rw [hφ.list]
      obtain ⟨answer, store⟩ := ObjectStore.list s l.request
      cases answer <;> rfl

theorem Listing.next_view (limit : Nat) (l : Listing) (s : σ) :
    l.next limit (φ s) =
      ((l.next limit s).1, (l.next limit s).2.1, φ (l.next limit s).2.2) := by
  induction limit generalizing l s with
  | zero => rfl
  | succ limit ih =>
    unfold next
    rw [step_view hφ]
    obtain ⟨outcome, l', s'⟩ := l.step s
    cases outcome with
    | fetched => exact ih l' s'
    | item | failed | ended => rfl

namespace RecordStream

theorem giveBack_view (state : StreamState) (s : σ) :
    giveBack state (φ s) = φ (giveBack state s) := by
  cases state with
  | reading d => cases hd : d.holdsBody <;> simp only [giveBack, hd, hφ.release] <;> rfl
  | pending | closed => rfl

theorem open_view (x : RecordStream) (s : σ) :
    x.open (φ s) = ((x.open s).1, (x.open s).2.1, φ (x.open s).2.2) := by
  unfold «open»
  cases x.state with
  | reading d => rfl
  | closed => rfl
  | pending =>
    simp only [hφ.fetch]
    obtain ⟨answer, store⟩ := ObjectStore.fetch s x.bucket x.objectKey
    cases answer with
    | error e => rfl
    | ok body =>
      cases hd : Decoder.open x.settings body x.offset.key with
      | error e => simp only [hd, hφ.release]
      | ok d => cases hb : d.holdsBody <;> simp [hd, hb, hφ.release]

theorem read_view (x : RecordStream) (s : σ) :
    x.read (φ s) = ((x.read s).1, (x.read s).2.1, φ (x.read s).2.2) := by
  unfold read
  cases x.state with
  | pending => rfl
  | closed => rfl
  | reading d =>
    simp only
    obtain ⟨p, n⟩ := d.pull (x.resumeFrom - x.offset.count)
    cases p <;> simp only [close, giveBack_view hφ]

theorem next_view (x : RecordStream) (s : σ) :
    x.next (φ s) = ((x.next s).1, (x.next s).2.1, φ (x.next s).2.2) := by
  unfold next
  rw [open_view hφ]
  obtain ⟨failure, x', store⟩ := x.open s
  cases failure with
  | some e => rfl
  | none => exact read_view hφ x' store

end RecordStream

end Objects

/-- A look-up does the same over a view. -/
theorem OffsetCache.get_view {ψ : τ → τ'} (hψ : OffsetView ψ) (c : OffsetCache) (s : τ)
    (k : OffsetKey) : c.get (ψ s) k = ((c.get s k).1, (c.get s k).2.1, ψ (c.get s k).2.2) := by
  unfold get getWith load
  cases c.slot? k with
  | some p => rfl
  | none =>
    simp only [hψ.lookup]
    obtain ⟨answer, s'⟩ := OffsetStore.lookup s k.properties
    rcases answer with e | _ | p
    · rfl
    · rfl
    · simp only
      cases p.isEmpty <;> rfl

namespace Feed

variable {φ : σ → σ'} {ψ : τ → τ'}

/-- What a turn leads to, with other stores. -/
def Turn.view (φ : σ → σ') (ψ : τ → τ') : Turn σ τ → Turn σ' τ'
  | .outcome r f w => .outcome r f (w.view φ ψ)
  | .again listed f w => .again listed f (w.view φ ψ)

section Take

omit [ObjectStore σ] [ObjectStore σ']

theorem take_view (hψ : OffsetView ψ) (f : Feed) (s : Summary) (w : World σ τ) :
    f.take s (w.view φ ψ) = (f.take s w).view φ ψ := by
  unfold take
  cases f.identify s.key with
  | none => rfl
  | some k =>
    simp only [World.view, OffsetCache.get_view hψ]
    obtain ⟨found, cache, offsets⟩ := w.cache.get w.offsets k
    cases found with
    | ok o => rfl
    | error e => cases e <;> rfl

omit [OffsetStore τ] [OffsetStore τ'] in
theorem afterStreamError_view (f : Feed) (s : Summary) (e : Error) (w : World σ τ) :
    f.afterStreamError s e (w.view φ ψ) = (f.afterStreamError s e w).view φ ψ := by
  unfold afterStreamError
  cases e <;> cases f.tolerance <;> rfl

end Take

variable (hφ : ObjectView φ) (hψ : OffsetView ψ)

include hφ

omit [OffsetStore τ] [OffsetStore τ'] in
theorem advance_view (f : Feed) (c : InFlight) (w : World σ τ) :
    f.advance c (w.view φ ψ) = (f.advance c w).view φ ψ := by
  unfold advance
  rw [show (w.view φ ψ).objects = φ w.objects from rfl, RecordStream.next_view hφ]
  obtain ⟨outcome, stream, store⟩ := c.stream.next w.objects
  cases outcome with
  | none => rfl
  | some r =>
    cases r with
    | ok r => rfl
    | error e =>
      simp only [RecordStream.close, RecordStream.giveBack_view hφ]
      exact afterStreamError_view _ c.summary e
        { w with objects := RecordStream.giveBack stream.state store }

include hψ

theorem search_view (f : Feed) (l : Listing) (listed : Bool) (w : World σ τ) :
    f.search l listed (w.view φ ψ) = (f.search l listed w).view φ ψ := by
  unfold search
  rw [show (w.view φ ψ).objects = φ w.objects from rfl, Listing.step_view hφ]
  obtain ⟨outcome, l', store⟩ := l.step w.objects
  cases outcome with
  | fetched | ended | failed => rfl
  | item x =>
    simp only
    cases f.filter.accepts x with
    | false => rfl
    | true => exact take_view hψ _ x { w with objects := store }

theorem turn_view (f : Feed) (listed : Bool) (w : World σ τ) :
    f.turn listed (w.view φ ψ) = (f.turn listed w).view φ ψ := by
  unfold turn
  split
  · rfl
  split
  · exact advance_view hφ f _ w
  · exact take_view hψ _ _ w
  · exact search_view hφ hψ f _ listed w
  · split <;> rfl

/-- **A feed does the same over a view of the stores.** -/
theorem pull_view (limit : Nat) (listed : Bool) (f : Feed) (w : World σ τ) :
    f.pull limit listed (w.view φ ψ) = ((f.pull limit listed w).1, (f.pull limit listed w).2.1,
      (f.pull limit listed w).2.2.view φ ψ) := by
  induction limit generalizing listed f w with
  | zero => rfl
  | succ limit ih =>
    unfold pull
    rw [turn_view hφ hψ]
    cases f.turn listed w with
    | outcome r f w => rfl
    | again listed f w => exact ih listed f w

theorem collect_view (limit n : Nat) (batch : List Delivery) (f : Feed) (w : World σ τ) :
    f.collect limit n batch (w.view φ ψ) =
      ((f.collect limit n batch w).1, (f.collect limit n batch w).2.1,
        (f.collect limit n batch w).2.2.view φ ψ) := by
  induction n generalizing batch f w with
  | zero => rfl
  | succ n ih =>
    unfold collect
    rw [pull_view hφ hψ]
    obtain ⟨r, f', w'⟩ := f.pull limit false w
    rcases r with _ | e | d
    · rfl
    · simp only
      split <;> rfl
    · exact ih (batch ++ [d]) f' w'

theorem poll_view (limit n : Nat) (f : Feed) (w : World σ τ) :
    f.poll limit n (w.view φ ψ) = ((f.poll limit n w).1, (f.poll limit n w).2.1,
      (f.poll limit n w).2.2.view φ ψ) := by
  unfold poll
  cases f.deferred with
  | some e => rfl
  | none => exact collect_view hφ hψ limit n [] f w

omit hψ [OffsetStore τ] [OffsetStore τ'] in
theorem close_view (f : Feed) (w : World σ τ) :
    f.close (w.view φ ψ) = ((f.close w).1, (f.close w).2.view φ ψ) := by
  unfold close
  cases f.current with
  | none => rfl
  | some x =>
    simp only [RecordStream.close, World.view, RecordStream.giveBack_view hφ]

end Feed

end ObjectFeed
