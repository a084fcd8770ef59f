import ObjectFeed.Proofs.Holding

/-!
# The cache as a read-through map

What the cache answers for an identity is a function of what happened so far: the properties that
the store had when a lookup of the identity first succeeded, or else those of the first update,
and the later updates merged into them. What the store does afterwards and what happens to other
identities does not count.

* `OffsetCache.Event`: what happens to a cache and to the store behind it; `OffsetCache.run` is
  their state after a list of events, `OffsetCache.moments` keeps the store that each event met.
* `OffsetCache.reference`: the properties of an identity, read off the events alone.
* `OffsetCache.slot?_run`: **what the cache holds after any events is the reference.**
* `OffsetCache.lookupAfter_eq_reference`: **what a lookup answers after any events.**
-/

namespace ObjectFeed.OffsetCache

/-- What happens to a cache and to the store behind it. -/
inductive Event (τ : Type) where
  | get (k : OffsetKey)
  | update (o : Offset)
  /-- Something else happens to the store: it persists properties, or it is told to fail. -/
  | change (f : τ → τ)

/-- An event and the store as it was before. -/
structure Moment (τ : Type) where
  event : Event τ
  store : τ

variable {τ : Type}

/-- The properties that an event merges into what is known of an identity. -/
def Event.override? (k : OffsetKey) : Event τ → Option Properties
  | .update o => if o.key = k then some o.properties else none
  | _ => none

variable [OffsetStore τ]

/-- The cache and the store after an event. -/
def Event.apply : Event τ → OffsetCache × τ → OffsetCache × τ
  | .get k, (c, t) => (c.get t k).2
  | .update o, (c, t) => (c.update o, t)
  | .change f, (c, t) => (c, f t)

/-- The cache and the store after a list of events. -/
def run (es : List (Event τ)) (s : OffsetCache × τ) : OffsetCache × τ :=
  es.foldl (fun s e => e.apply s) s

/-- The events, each with the store that it meets. -/
def moments : List (Event τ) → OffsetCache × τ → List (Moment τ)
  | [], _ => []
  | e :: es, s => ⟨e, s.2⟩ :: moments es (e.apply s)

/-- The properties with which an event fills the slot of an identity that is not known yet: a
lookup that succeeds or an update. -/
def Moment.filling? (k : OffsetKey) (m : Moment τ) : Option Properties :=
  match m.event with
  | .get l =>
    if l = k then ((OffsetStore.lookup m.store k.properties).1.toOption).map (initial k) else none
  | e => e.override? k

/-- The properties of an identity after what happened: those with which its slot was first filled,
overridden by every later update of it. -/
def reference (k : OffsetKey) : List (Moment τ) → Option Properties
  | [] => none
  | m :: ms =>
    match m.filling? k with
    | some p => some ((ms.filterMap (·.event.override? k)).foldl Dict.merge p)
    | none => reference k ms

theorem slot?_get_of_ne {c : OffsetCache} {k l : OffsetKey} (h : k ≠ l) (t : τ) :
    (c.get t l).2.1.slot? k = c.slot? k := by
  cases hslot : c.slot? l with
  | some p => rw [get_of_known hslot]
  | none =>
    obtain ⟨r, t', hl⟩ : ∃ r t', OffsetStore.lookup t l.properties = (r, t') := ⟨_, _, rfl⟩
    cases r with
    | error e => rw [get_of_failure hslot hl]
    | ok found => rw [get_of_found hslot hl, slot?_fill, if_neg h]

/-- **What one event does to the slot of an identity**: an update overrides a slot that is filled,
and only an event that fills it changes one that is not. -/
theorem slot?_apply (e : Event τ) (s : OffsetCache × τ) (k : OffsetKey) :
    (e.apply s).1.slot? k =
      match s.1.slot? k with
      | some p => some ((e.override? k).toList.foldl Dict.merge p)
      | none => Moment.filling? k ⟨e, s.2⟩ := by
  obtain ⟨c, t⟩ := s
  cases e with
  | change f => cases h : c.slot? k <;> simp [Event.apply, h, Moment.filling?, Event.override?]
  | update o =>
    by_cases hk : o.key = k
    · subst hk
      cases h : c.slot? o.key <;>
        simp [Event.apply, slot?_update, h, Moment.filling?, Event.override?]
    · cases h : c.slot? k <;>
        simp [Event.apply, slot?_update, h, Moment.filling?, Event.override?, hk, Ne.symm hk]
  | get l =>
    by_cases hk : l = k
    · subst hk
      cases h : c.slot? l with
      | some p => simp [Event.apply, get_of_known h, h, Event.override?]
      | none =>
        obtain ⟨r, t', hl⟩ : ∃ r t', OffsetStore.lookup t l.properties = (r, t') := ⟨_, _, rfl⟩
        cases r with
        | error e =>
          simp [Event.apply, get_of_failure h hl, h, Moment.filling?, hl, Except.toOption]
        | ok found => simp [Event.apply, get_of_found h hl, Moment.filling?, hl, Except.toOption]
    · have := slot?_get_of_ne (c := c) (Ne.symm hk) t
      cases h : c.slot? k <;>
        simp [Event.apply, this, h, Moment.filling?, Event.override?, hk]

theorem run_append (es es' : List (Event τ)) (s : OffsetCache × τ) :
    run (es ++ es') s = run es' (run es s) := List.foldl_append

theorem event_moments (es : List (Event τ)) (s : OffsetCache × τ) :
    (moments es s).map (·.event) = es := by
  induction es generalizing s with
  | nil => rfl
  | cons e es ih => exact congrArg (e :: ·) (ih _)

/-- Only the updates of an identity change a slot that is filled. -/
theorem slot?_run_of_known {k : OffsetKey} {p : Properties} {s : OffsetCache × τ}
    (h : s.1.slot? k = some p) (es : List (Event τ)) :
    (run es s).1.slot? k = some ((es.filterMap (·.override? k)).foldl Dict.merge p) := by
  induction es generalizing s p with
  | nil => exact h
  | cons e es ih =>
    have hstep := slot?_apply e s k
    rw [h] at hstep
    have hrun := ih hstep
    cases ho : e.override? k with
    | none => simpa [run, ho] using hrun
    | some q => simpa [run, ho] using hrun

/-- **What the cache holds after any events is the reference**, if nothing was known before. -/
theorem slot?_run {k : OffsetKey} {s : OffsetCache × τ} (h : s.1.slot? k = none)
    (es : List (Event τ)) : (run es s).1.slot? k = reference k (moments es s) := by
  -- as long as no event fills the slot, the reference looks at the later ones
  induction es generalizing s with
  | nil => exact h
  | cons e es ih =>
    have hstep := slot?_apply e s k
    rw [h] at hstep
    unfold moments reference
    cases hf : Moment.filling? k ⟨e, s.2⟩ with
    | some p =>
      rw [hf] at hstep
      have hevents : (moments es (e.apply s)).filterMap (·.event.override? k) =
          es.filterMap (·.override? k) := by
        rw [← event_moments es (e.apply s), List.filterMap_map, event_moments]
        rfl
      rw [hevents]
      exact slot?_run_of_known hstep es
    | none =>
      rw [hf] at hstep
      exact ih hstep

/-- A lookup of an identity after the events, by a cache that was empty before them. -/
def lookupAfter (es : List (Event τ)) (t : τ) (k : OffsetKey) :
    Except Error Offset × OffsetCache × τ :=
  (run es ({}, t)).1.get (run es ({}, t)).2 k

section Lookup

variable (es : List (Event τ)) (t : τ) (k : OffsetKey)

theorem slot?_run_empty :
    (run es ({}, t)).1.slot? k = reference k (moments es ({}, t)) := slot?_run rfl es

variable {es t k}

/-- Once an identity is known, nothing but its updates changes what is known of it. -/
theorem reference_append {p : Properties} (h : reference k (moments es ({}, t)) = some p)
    (es' : List (Event τ)) : reference k (moments (es ++ es') ({}, t)) =
      some ((es'.filterMap (·.override? k)).foldl Dict.merge p) := by
  rw [← slot?_run_empty] at h
  rw [← slot?_run_empty, run_append, slot?_run_of_known h]

theorem lookupAfter_of_known {p : Properties}
    (h : reference k (moments es ({}, t)) = some p) :
    lookupAfter es t k = ((Offset.ofProperties p).mapError .offset, run es ({}, t)) := by
  rw [← slot?_run_empty] at h
  exact get_of_known h _

theorem lookupAfter_of_failure {e : StoreError} {t' : τ}
    (h : reference k (moments es ({}, t)) = none)
    (hl : OffsetStore.lookup (run es ({}, t)).2 k.properties = (.error e, t')) :
    lookupAfter es t k = (.error (.store e), (run es ({}, t)).1, t') := by
  rw [← slot?_run_empty] at h
  exact get_of_failure h hl

theorem lookupAfter_of_found {found : Option Properties} {t' : τ}
    (h : reference k (moments es ({}, t)) = none)
    (hl : OffsetStore.lookup (run es ({}, t)).2 k.properties = (.ok found, t')) :
    lookupAfter es t k = ((Offset.ofProperties (initial k found)).mapError .offset,
      (run es ({}, t)).1.fill k (initial k found), t') := by
  rw [← slot?_run_empty] at h
  exact get_of_found h hl

/-- A lookup that succeeds is the first event that fills the slot. -/
theorem reference_get {found : Option Properties} {t' : τ}
    (h : reference k (moments es ({}, t)) = none)
    (hl : OffsetStore.lookup (run es ({}, t)).2 k.properties = (.ok found, t')) :
    reference k (moments (es ++ [.get k]) ({}, t)) = some (initial k found) := by
  rw [← slot?_run_empty, run_append]
  show (lookupAfter es t k).2.1.slot? k = _
  rw [lookupAfter_of_found h hl, slot?_fill, if_pos rfl]

/-- What a lookup answers is what it answers again, until an update of the identity. -/
theorem lookupAfter_again {r : Except Error Offset} {p : Properties} {es' : List (Event τ)}
    (h : reference k (moments (es ++ [.get k]) ({}, t)) = some p)
    (hr : (Offset.ofProperties p).mapError .offset = r)
    (hes' : ∀ e ∈ es', e.override? k = none) :
    (lookupAfter (es ++ .get k :: es') t k).1 = r := by
  have happend := reference_append h es'
  have hnone : es'.filterMap (·.override? k) = [] := List.filterMap_eq_nil_iff.2 hes'
  rw [hnone, List.append_assoc] at happend
  exact (congrArg (·.1) (lookupAfter_of_known happend)).trans hr

end Lookup

/-- **What a lookup answers after any events.** If something is known of the identity, the offset
that is read back from it, and the store is not asked. If not, the store is asked: if it fails, so
does the lookup, and nothing becomes known; what it finds becomes known and is answered. From then
on only updates of the identity change what is known of it, so that a lookup is answered in the same
way until the next one. -/
theorem lookupAfter_eq_reference (es : List (Event τ)) (t : τ) (k : OffsetKey) :
    (∀ p, reference k (moments es ({}, t)) = some p →
      lookupAfter es t k = ((Offset.ofProperties p).mapError .offset, run es ({}, t)) ∧
      ∀ es', reference k (moments (es ++ es') ({}, t)) =
        some ((es'.filterMap (·.override? k)).foldl Dict.merge p)) ∧
    (∀ e t', reference k (moments es ({}, t)) = none →
      OffsetStore.lookup (run es ({}, t)).2 k.properties = (.error e, t') →
      lookupAfter es t k = (.error (.store e), (run es ({}, t)).1, t')) ∧
    (∀ found t', reference k (moments es ({}, t)) = none →
      OffsetStore.lookup (run es ({}, t)).2 k.properties = (.ok found, t') →
      (lookupAfter es t k).1 = (Offset.ofProperties (initial k found)).mapError .offset ∧
      (lookupAfter es t k).2.2 = t' ∧
      reference k (moments (es ++ [.get k]) ({}, t)) = some (initial k found)) ∧
    ∀ es', (∀ e ∈ es', e.override? k = none) →
      (∃ e, (lookupAfter es t k).1 = .error (.store e)) ∨
      (lookupAfter (es ++ .get k :: es') t k).1 = (lookupAfter es t k).1 := by
  refine ⟨fun p h => ⟨lookupAfter_of_known h, reference_append h⟩,
    fun e t' h hl => lookupAfter_of_failure h hl, ?_, ?_⟩
  · intro found t' h hl
    rw [lookupAfter_of_found h hl]
    exact ⟨rfl, rfl, reference_get h hl⟩
  · intro es' hes'
    cases h : reference k (moments es ({}, t)) with
    | some p =>
      have hknown := reference_append h [.get k]
      rw [lookupAfter_of_known h]
      exact .inr (lookupAfter_again hknown rfl hes')
    | none =>
      obtain ⟨r, t', hl⟩ : ∃ r t',
          OffsetStore.lookup (run es ({}, t)).2 k.properties = (r, t') := ⟨_, _, rfl⟩
      cases r with
      | error e =>
        rw [lookupAfter_of_failure h hl]
        exact .inl ⟨e, rfl⟩
      | ok found =>
        rw [lookupAfter_of_found h hl]
        exact .inr (lookupAfter_again (reference_get h hl) rfl hes')

/-- An identity. -/
def sampleKey : OffsetKey := { bucket := "b", topic := "t", partition := none, objectKey := "a" }

/-- Its offset after five records. -/
def sampleOffset : Offset :=
  { key := sampleKey, count := 5, extra := .ofList [("etag", .string "x")] }

/-- A lookup that fails, one that finds an empty dictionary, a write that comes too late for the
cache, and updates of another identity and of this one. -/
def sampleEvents : List (Event MemoryOffsets) :=
  [.change fun t => { t with failures := 1 }, .get sampleKey,
    .change (·.put sampleKey.properties ∅), .get sampleKey,
    .change (·.put sampleKey.properties { sampleOffset with count := 9 }.properties),
    .update { key := { sampleKey with objectKey := "c" }, count := 7 }, .update sampleOffset]

theorem lookupAfter_eq_reference_sample :
    (∃ e, (lookupAfter (sampleEvents.take 1) {} sampleKey).1 = .error (.store e)) ∧
    (lookupAfter (sampleEvents.take 3) {} sampleKey).1 = .ok { key := sampleKey } ∧
    (lookupAfter (sampleEvents.take 6) {} sampleKey).1 = .ok { key := sampleKey } ∧
    lookupAfter sampleEvents {} sampleKey = (.ok sampleOffset, run sampleEvents ({}, {})) := by
  obtain ⟨-, hfailure, -, -⟩ := lookupAfter_eq_reference (sampleEvents.take 1) {} sampleKey
  obtain ⟨-, -, hfound, hagain⟩ := lookupAfter_eq_reference (sampleEvents.take 3) {} sampleKey
  obtain ⟨hknown, -, -, -⟩ := lookupAfter_eq_reference sampleEvents {} sampleKey
  have hfirst : (lookupAfter (sampleEvents.take 3) {} sampleKey).1 = .ok { key := sampleKey } :=
    (hfound (some ∅) _ rfl rfl).1.trans rfl
  refine ⟨⟨_, congrArg (·.1) (hfailure _ _ rfl rfl)⟩, hfirst, ?_, (hknown _ rfl).1.trans rfl⟩
  rcases hagain ((sampleEvents.take 6).drop 4) (by simp [sampleEvents, Event.override?, sampleKey])
    with ⟨e, he⟩ | hagain
  · simp [hfirst] at he
  · exact hagain.trans hfirst

end ObjectFeed.OffsetCache
