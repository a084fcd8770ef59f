import ObjectFeed.Proofs.Course
import ObjectFeed.Proofs.Reading

/-!
# Well-formed states of a feed

A feed that runs over stores which hold what they held remembers just enough to go on: the last
key that was listed, the object it has taken up, and in the cache the progress of that object.

* `Feed.StateOK`: the state of a feed and the cache belong together.
* `Feed.stateOK_fresh`: a feed that has read nothing yet is well formed.
* `Feed.StateOK.congr`: **neither the state nor its course depend on what the cache knows of
  objects of other workers.**
-/

namespace ObjectFeed

open MemoryObjects (isAfter matching mem_matching)

/-- The cache knows the progress of an object that is being read. -/
def OffsetCache.Tracks (c : OffsetCache) (s : RecordStream) : Prop :=
  (∃ p, c.slot? s.offset.key = some p ∧ Offset.ofProperties p = .ok s.offset) ∨
    ((∃ d, s.state = .reading d) ∧ c.slot? s.offset.key = some s.offset.properties)

namespace Feed

/-- The parts of a feed that no turn changes. -/
def setup (f : Feed) :
    DecoderSettings × Template × Option String × Tolerance × Lister × Assignment :=
  (f.settings, f.template, f.topic, f.tolerance, f.lister, f.filter.assignment)

/-- What is known of the identity of an object, if it has one, is an offset of it. -/
def Ready (f : Feed) (c : OffsetCache) (key : String) : Prop :=
  ∀ k, f.identify key = some k → c.SlotOK k

/-- The object that was listed last can be taken up. -/
structure UpcomingOK (f : Feed) (H : Holdings) (c : OffsetCache) (key : String) : Prop where
  lastKey : f.lastKey = some key
  owned : f.filter.assignment.owns key = true
  stored : ∃ body, H.objects.get? key = some body
  ready : f.Ready c key

/-- The object that was listed last is being read, and its stream is where its offset says. -/
structure CurrentOK (f : Feed) (H : Holdings) (c : OffsetCache) (x : InFlight) : Prop where
  lastKey : f.lastKey = some x.summary.key
  owned : f.filter.assignment.owns x.summary.key = true
  identity : f.identify x.summary.key = some x.stream.offset.key
  settings : x.stream.settings = f.settings
  bucket : x.stream.bucket = f.lister.bucket
  objectKey : x.stream.objectKey = x.summary.key
  follows : ∃ body, H.objects.get? x.summary.key = some body ∧
    x.stream.Follows (body.transcript f.settings x.stream.offset.key)
  tracks : c.Tracks x.stream

/-- The state of a feed and the cache belong together. -/
structure StateOK (f : Feed) (H : Holdings) (c : OffsetCache) : Prop where
  listing : ∀ l, f.listing = some l → l.Covers f.lister H.objects f.lastKey
  unseen : ∀ s ∈ f.unseen H, f.filter.assignment.owns s.key = true → f.Ready c s.key
  single : f.current = none ∨ f.pending = none
  pending : ∀ s, f.pending = some s → f.UpcomingOK H c s.key
  current : ∀ x, f.current = some x → f.CurrentOK H c x

variable {f g : Feed} {H : Holdings} {c c' : OffsetCache} {key : String} {k : OffsetKey}

theorem lister_congr (h : g.setup = f.setup) : g.lister = f.lister := by
  simp only [setup, Prod.mk.injEq] at h
  exact h.2.2.2.2.1

theorem assignment_congr (h : g.setup = f.setup) :
    g.filter.assignment = f.filter.assignment := by
  simp only [setup, Prod.mk.injEq] at h
  exact h.2.2.2.2.2

theorem identify_congr (h : g.setup = f.setup) : g.identify = f.identify := by
  simp only [setup, Prod.mk.injEq] at h
  obtain ⟨-, ht, hn, -, hl, -⟩ := h
  funext key
  unfold identify
  rw [ht, hn, hl]

theorem unseen_congr (h : g.setup = f.setup) (hl : g.lastKey = f.lastKey) (H : Holdings) :
    g.unseen H = f.unseen H := by
  unfold unseen
  rw [lister_congr h, hl]

/-- The objects that have not been listed come after the last key. -/
theorem ne_of_mem_unseen (hl : f.lastKey = some key) {s : Summary} (h : s ∈ f.unseen H) :
    s.key ≠ key := by
  intro heq
  obtain ⟨-, hafter, -⟩ := mem_matching h
  rw [hl, heq] at hafter
  exact String.lt_irrefl key (of_decide_eq_true hafter)

theorem yields_congr (h : g.setup = f.setup)
    (hc : ∀ k, f.identify key = some k →
      c'.progress H.persisted k = c.progress H.persisted k) :
    g.yields H c' key = f.yields H c key := by
  unfold yields
  rw [identify_congr h]
  cases hk : f.identify key with
  | none => rfl
  | some k =>
    simp only [setup, Prod.mk.injEq] at h
    simp only [yieldFrom, h.1, hc k hk]

/-- What is coming depends on the settings, the last key, the failed keys after it and the
progress of the keys after it. -/
theorem coming_congr (h : g.setup = f.setup) (hl : g.lastKey = f.lastKey)
    (ha : ∀ s ∈ f.unseen H, g.filter.accepts s = f.filter.accepts s)
    (hc : ∀ s ∈ f.unseen H, f.filter.assignment.owns s.key = true → ∀ k,
      f.identify s.key = some k → c'.progress H.persisted k = c.progress H.persisted k) :
    g.coming H c' = f.coming H c := by
  unfold coming
  rw [unseen_congr h hl, List.filter_congr ha]
  refine List.flatMap_congr fun s hs => ?_
  obtain ⟨hs, hacc⟩ := List.mem_filter.1 hs
  refine yields_congr h (hc s hs ?_)
  simp only [TaskFilter.accepts, Bool.and_eq_true] at hacc
  exact hacc.1.2

theorem yields_of_identify (h : f.identify key = some k) :
    f.yields H c key = [(key, f.yieldFrom H key (c.progress H.persisted k))] := by
  unfold yields
  rw [h]

theorem yields_of_identify_none (h : f.identify key = none) : f.yields H c key = [] := by
  unfold yields
  rw [h]

/-- If the cache changes at most in the slot of the object that was listed last, then it keeps what
belongs to keys of other workers and to keys that have not been listed. -/
theorem StateOK.others (h : f.StateOK H c) (hl : f.lastKey = some key)
    (ho : f.filter.assignment.owns key = true) (hk : k.objectKey = key)
    (hc : ∀ l, l ≠ k → c'.slot? l = c.slot? l) :
    (∀ l : OffsetKey, f.filter.assignment.owns l.objectKey = false → c'.slot? l = c.slot? l) ∧
      (∀ s ∈ f.unseen H, f.filter.assignment.owns s.key = true → f.Ready c' s.key) ∧
      f.coming H c' = f.coming H c := by
  have hkept : ∀ s ∈ f.unseen H, ∀ l, f.identify s.key = some l → c'.slot? l = c.slot? l := by
    intro s hs l hi
    refine hc l fun heq => ne_of_mem_unseen hl hs ?_
    rw [← identify_objectKey hi, heq, hk]
  refine ⟨?_, ?_, ?_⟩
  · intro l hl
    refine hc l fun heq => ?_
    rw [heq, hk, ho] at hl
    exact Bool.noConfusion hl
  · intro s hs howns l hi p hp
    rw [hkept s hs l hi] at hp
    exact h.unseen s hs howns l hi p hp
  · exact coming_congr rfl rfl (fun _ _ => rfl) fun s hs _ l hi =>
      OffsetCache.progress_congr (hkept s hs l hi)

/-- A feed that has read nothing yet is well formed. -/
theorem stateOK_fresh (h : f.Fresh) (H : Holdings) : f.StateOK H {} where
  listing l hl := by simp [h.listing] at hl
  unseen s _ _ k _ p hp := by simp [OffsetCache.slot?] at hp
  single := .inl h.current
  pending s hs := by simp [h.pending] at hs
  current x hx := by simp [h.current] at hx

/-- **What the cache knows of objects of other workers is of no account.** -/
theorem StateOK.congr (h : f.StateOK H c)
    (hc : ∀ k : OffsetKey, f.filter.assignment.owns k.objectKey = true →
      c'.slot? k = c.slot? k) :
    f.StateOK H c' ∧ f.course H c' = f.course H c := by
  -- all that the state and the course read of the cache is under keys of the worker
  have hslot : ∀ key k, f.filter.assignment.owns key = true → f.identify key = some k →
      c'.slot? k = c.slot? k := by
    intro key k ho hi
    exact hc k (by rw [identify_objectKey hi]; exact ho)
  have hready : ∀ key, f.filter.assignment.owns key = true → f.Ready c key → f.Ready c' key := by
    intro key ho hr k hi p hp
    rw [hslot key k ho hi] at hp
    exact hr k hi p hp
  have hpending : ∀ s, f.pending = some s → f.UpcomingOK H c' s.key := by
    intro s hs
    have hup := h.pending s hs
    exact ⟨hup.lastKey, hup.owned, hup.stored, hready _ hup.owned hup.ready⟩
  constructor
  · refine ⟨h.listing, fun s hs ho => hready _ ho (h.unseen s hs ho), h.single, hpending, ?_⟩
    intro x hx
    have hcur := h.current x hx
    refine ⟨hcur.lastKey, hcur.owned, hcur.identity, hcur.settings, hcur.bucket, hcur.objectKey,
      hcur.follows, ?_⟩
    have htracks := hcur.tracks
    unfold OffsetCache.Tracks at htracks ⊢
    rw [hslot _ _ hcur.owned hcur.identity]
    exact htracks
  · have hcoming : f.coming H c' = f.coming H c :=
      coming_congr rfl rfl (fun _ _ => rfl) fun s _ ho k hi =>
        OffsetCache.progress_congr (hslot _ _ ho hi)
    have hyields : ∀ s, f.pending = some s → f.yields H c' s.key = f.yields H c s.key := by
      intro s hs
      exact yields_congr rfl fun k hi =>
        OffsetCache.progress_congr (hslot _ _ (h.pending s hs).owned hi)
    have hahead : f.ahead H c' = f.ahead H c := by
      unfold ahead
      rw [hcoming]
      cases hs : f.pending with
      | none => rfl
      | some s => simp only [hyields s hs]
    unfold course
    rw [hahead]

end Feed

end ObjectFeed
