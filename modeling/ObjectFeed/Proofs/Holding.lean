import ObjectFeed.Offset.Cache
import ObjectFeed.Proofs.PersistedForm
import ObjectFeed.Proofs.Window

/-!
# Stores that hold what they held

Theorems on feeds hold of all stores that answer as stores in memory do, apart from a number of
failures that are still to come. A failure changes nothing that the store holds.

* `ObjectHolder`, `OffsetHolder`: such stores, with what they hold and the failures to come;
  stores in memory are among them.
* `Listing.step_cases`: what one step of a listing can do over such a store.
* `OffsetCache.known`, `OffsetCache.progress`: what is known of an identity, and its offset.
* `OffsetCache.initial`: what becomes known of an identity once it is looked up.
* `OffsetCache.get_cases`: **a lookup in the cache gives that offset and keeps all others, or it
  fails with the store's error and changes nothing.**
-/

namespace ObjectFeed

open MemoryObjects (matching page)

/-- An object store that holds the objects of a bucket. Each answer either is that of a store in
memory or one of the failures to come; a fetch that fails may be repeated. -/
class ObjectHolder (σ : Type) [ObjectStore σ] where
  Holds : σ → (bucket : String) → Dict Body → Prop
  /-- The failures to come. -/
  faults : σ → Nat
  list_cases {s : σ} {bucket : String} {objects : Dict Body} {r : ListRequest}
    {after : Option String} (h : Holds s bucket objects) (hb : r.bucket = bucket)
    (hr : r.StartsAfter after) :
    (∃ s', ObjectStore.list s r = (.ok (page r.maxKeys (matching objects r.keyPrefix after)), s') ∧
      Holds s' bucket objects ∧ faults s' = faults s) ∨
    (∃ e s', ObjectStore.list s r = (.error e, s') ∧ Holds s' bucket objects ∧
      faults s = faults s' + 1)
  fetch_cases {s : σ} {bucket key : String} {objects : Dict Body} {body : Body}
    (h : Holds s bucket objects) (hb : objects.get? key = some body) :
    (∃ s', ObjectStore.fetch s bucket key = (.ok body, s') ∧ Holds s' bucket objects ∧
      faults s' = faults s) ∨
    (∃ e s', ObjectStore.fetch s bucket key = (.error e, s') ∧ e.isTransient = true ∧
      Holds s' bucket objects ∧ faults s = faults s' + 1)
  holds_release {s : σ} {bucket : String} {objects : Dict Body} (h : Holds s bucket objects) :
    Holds (ObjectStore.release s) bucket objects
  faults_release (s : σ) : faults (ObjectStore.release s) = faults s

/-- An offset store that holds progress by identity. A lookup that fails may be repeated. -/
class OffsetHolder (τ : Type) [OffsetStore τ] where
  Holds : τ → (OffsetKey → Option Properties) → Prop
  /-- The failures to come. -/
  faults : τ → Nat
  lookup_cases {t : τ} {persisted : OffsetKey → Option Properties} (h : Holds t persisted)
    (k : OffsetKey) :
    (∃ t', OffsetStore.lookup t k.properties = (.ok (persisted k), t') ∧ Holds t' persisted ∧
      faults t' = faults t) ∨
    (∃ e t', OffsetStore.lookup t k.properties = (.error e, t') ∧ e.isTransient = true ∧
      Holds t' persisted ∧ faults t = faults t' + 1)

namespace MemoryObjects

/-- A listing answers or uses up a failure. -/
theorem list_cases (s : MemoryObjects) (r : ListRequest) :
    (s.listFailures = 0 ∧ s.queued = [] ∧
      s.list r = (s.answer r, { s with listLog := s.listLog ++ [r] })) ∨
    ((s.listFailures ≠ 0 ∨ s.queued ≠ []) ∧ ∃ e, s.list r = (.error e,
      { s with listLog := s.listLog ++ [r], listFailures := s.listFailures - 1,
               queued := s.queued.tail })) := by
  cases hq : s.queued with
  | nil =>
    cases hl : s.listFailures with
    | zero => exact .inl ⟨rfl, rfl, by simp [list, hq, hl, replaceOutcome]⟩
    | succ n =>
      refine .inr ⟨.inl (by simp), ⟨.network, "Listing of " ++ r.bucket ++ " failed", none⟩, ?_⟩
      simp [list, hq, hl, replaceOutcome]
  | cons e es => exact .inr ⟨.inr (by simp), e, by simp [list, hq, replaceOutcome]⟩

instance : ObjectHolder MemoryObjects where
  Holds s bucket objects := s.buckets.get? bucket = some objects ∧
    ∀ key kind, s.fetchFailures.get? key = some kind → kind.isTransient = true
  faults s := max s.listFailures s.queued.length + s.fetchFailures.members.length
  list_cases {s bucket objects r after} h hb hr := by
    rcases list_cases s r with ⟨-, -, hs⟩ | ⟨hf, e, hs⟩
    · rw [answer_eq hr (hb ▸ h.1)] at hs
      exact .inl ⟨_, hs, h, rfl⟩
    · refine .inr ⟨e, _, hs, h, ?_⟩
      have hpos : 0 < max s.listFailures s.queued.length := by
        rcases hf with hf | hf
        · omega
        · have := List.length_pos_iff.2 hf
          omega
      simp only [List.length_tail]
      omega
  fetch_cases {s bucket key objects body} h hb := by
    simp only [ObjectStore.fetch, fetch]
    cases hf : s.fetchFailures.get? key with
    | none =>
      refine .inl ⟨{ s with fetchLog := s.fetchLog ++ [key], opened := s.opened + 1 }, ?_, h, rfl⟩
      simp [h.1, hb]
    | some kind =>
      refine .inr ⟨_, _, rfl, h.2 _ _ hf, ⟨h.1, ?_⟩, ?_⟩
      · intro l kind' hl
        simp only [Dict.get?_erase] at hl
        split at hl
        · simp at hl
        · exact h.2 _ _ hl
      · have := Members.length_erase s.fetchFailures.sorted hf
        simp only [Dict.erase]
        omega
  holds_release h := h
  faults_release s := rfl

end MemoryObjects

namespace MemoryOffsets

/-- A lookup answers or uses up a failure. -/
theorem lookup_cases (t : MemoryOffsets) (k : OffsetKey) :
    (t.failures = 0 ∧ t.queued = [] ∧
      t.lookup k.properties = (.ok (t.stored? k), { t with queries := t.queries + 1 })) ∨
    ((t.failures ≠ 0 ∨ t.queued ≠ []) ∧ ∃ e : StoreError,
      (e ∈ t.queued ∨ e.isTransient = true) ∧
      t.lookup k.properties = (.error e, { t with
        queries := t.queries + 1, failures := t.failures - 1, queued := t.queued.tail })) := by
  cases hq : t.queued with
  | nil =>
    cases hf : t.failures with
    | zero => exact .inl ⟨rfl, rfl, by simp [lookup, hq, hf, replaceOutcome, stored?]⟩
    | succ n =>
      refine .inr ⟨.inl (by simp), ⟨.network, "Offset lookup failed", none⟩, .inr rfl, ?_⟩
      simp [lookup, hq, hf, replaceOutcome]
  | cons e es =>
    exact .inr ⟨.inr (by simp), e, .inl List.mem_cons_self, by simp [lookup, hq, replaceOutcome]⟩

instance : OffsetHolder MemoryOffsets where
  Holds t persisted := t.stored? = persisted ∧ ∀ e ∈ t.queued, e.isTransient = true
  faults t := max t.failures t.queued.length
  lookup_cases {t persisted} h k := by
    obtain ⟨rfl, htransient⟩ := h
    rcases lookup_cases t k with ⟨-, -, hs⟩ | ⟨hf, e, he, hs⟩
    · exact .inl ⟨_, hs, ⟨rfl, htransient⟩, rfl⟩
    · refine .inr ⟨e, _, hs, he.elim (htransient e) id, ⟨rfl, ?_⟩, ?_⟩
      · exact fun e' he' => htransient e' (List.mem_of_mem_tail he')
      · have hpos : 0 < max t.failures t.queued.length := by
          rcases hf with hf | hf
          · omega
          · have := List.length_pos_iff.2 hf
            omega
        simp only [List.length_tail]
        omega

end MemoryOffsets

/-- What one step of a listing can do: deliver the first object of the buffer, end after the last
object, receive a page, or fail. -/
theorem Listing.step_cases {σ : Type} [ObjectStore σ] [ObjectHolder σ] {l : Listing}
    {lister : Lister} {objects : Dict Body} {after : Option String} {s : σ}
    (h : l.Covers lister objects after) (hs : ObjectHolder.Holds s lister.bucket objects) :
    (∃ x buffer, l.buffer = x :: buffer ∧ l.step s = (.item x, { l with buffer }, s)) ∨
    (matching objects lister.keyPrefix after = [] ∧ l.step s = (.ended, l, s)) ∨
    (∃ l' s', l.step s = (.fetched, l', s') ∧ l'.Covers lister objects after ∧
      l.buffer = [] ∧ l.done = false ∧ (l'.buffer ≠ [] ∨ l'.done = true) ∧
      ObjectHolder.Holds s' lister.bucket objects ∧
      ObjectHolder.faults s' = ObjectHolder.faults s) ∨
    (∃ e l' s', l.step s = (.failed e, l', s') ∧ ObjectHolder.Holds s' lister.bucket objects ∧
      ObjectHolder.faults s = ObjectHolder.faults s' + 1) := by
  unfold step
  cases hb : l.buffer with
  | cons x buffer => exact .inl ⟨x, buffer, rfl, rfl⟩
  | nil =>
    right
    cases hd : l.done with
    | true => exact .inl ⟨(h.done hd).trans hb, by simp⟩
    | false =>
      right
      obtain ⟨next, hr, hm⟩ := h.more hd
      rw [hb, List.nil_append] at hm
      rcases ObjectHolder.list_cases hs h.bucket hr with
        ⟨s', hlist, hs', hf⟩ | ⟨e, s', hlist, hs', hf⟩
      · obtain ⟨hcovers, hprogress⟩ := h.accept hb hd hm
        exact .inl ⟨_, s', by simp [hlist], hcovers, rfl, rfl, hprogress, hs', hf⟩
      · exact .inr ⟨e, _, s', by simp [hlist]; rfl, hs', hf⟩

/-- All persisted properties that are not empty are an offset of the identity under which they
are persisted. -/
def Resumable (persisted : OffsetKey → Option Properties) : Prop :=
  ∀ k p, persisted k = some p → p.isEmpty = false →
    ∃ o, Offset.ofProperties p = .ok o ∧ o.key = k

theorem Offset.ofProperties_of_isEmpty {p : Properties} (h : p.isEmpty = true) :
    ∃ e, ofProperties p = .error e := by
  have hp : p = ∅ := Dict.ext (List.isEmpty_iff.1 h)
  exact ⟨.missing "bucket", by rw [hp]; rfl⟩

/-- The offset that is recorded under an identity; one without records if there is none. -/
def Offset.recorded (known : OffsetKey → Option Properties) (k : OffsetKey) : Offset :=
  ((known k).bind fun p => (ofProperties p).toOption).getD { key := k }

/-- A store stays resumable when the progress of an object is persisted. -/
theorem Resumable.put {t : MemoryOffsets} (h : Resumable t.stored?) {o : Offset} (hs : o.Separate)
    (hc : o.count < pow2 64) : Resumable (t.put o.key.properties o.properties).stored? := by
  intro k p hp hempty
  rw [MemoryOffsets.stored?_put] at hp
  split at hp
  · rename_i hk
    cases hp
    exact ⟨o, Offset.ofProperties_properties hs hc, hk.symm⟩
  · exact h k p hp hempty

theorem Offset.recorded_key {known : OffsetKey → Option Properties} (h : Resumable known)
    (k : OffsetKey) : (Offset.recorded known k).key = k := by
  unfold recorded
  cases hp : known k with
  | none => rfl
  | some p =>
    cases hempty : p.isEmpty with
    | true =>
      obtain ⟨e, he⟩ := Offset.ofProperties_of_isEmpty hempty
      rw [Option.bind_some, he]
      rfl
    | false =>
      obtain ⟨o, ho, hk⟩ := h k p hp hempty
      rw [Option.bind_some, ho]
      exact hk

namespace OffsetCache

/-- What is known of an identity is an offset of it. -/
def SlotOK (c : OffsetCache) (k : OffsetKey) : Prop :=
  ∀ p, c.slot? k = some p → ∃ o, Offset.ofProperties p = .ok o ∧ o.key = k

/-- What is known of an identity, or is about to be once it is looked up. -/
def known (c : OffsetCache) (persisted : OffsetKey → Option Properties) (k : OffsetKey) :
    Option Properties := (c.slot? k).or (persisted k)

/-- The offset from which an identity goes on. -/
def progress (c : OffsetCache) (persisted : OffsetKey → Option Properties) (k : OffsetKey) :
    Offset := .recorded (c.known persisted) k

variable {c c' : OffsetCache} {persisted : OffsetKey → Option Properties} {k : OffsetKey}

theorem progress_congr (h : c.slot? k = c'.slot? k) :
    c.progress persisted k = c'.progress persisted k := by
  unfold progress Offset.recorded known
  rw [h]

theorem progress_of_known {p : Properties} {o : Offset} (h : c.known persisted k = some p)
    (ho : Offset.ofProperties p = .ok o) : c.progress persisted k = o := by
  unfold progress Offset.recorded
  rw [h, Option.bind_some, ho]
  rfl

theorem progress_of_slot {p : Properties} {o : Offset} (h : c.slot? k = some p)
    (ho : Offset.ofProperties p = .ok o) : c.progress persisted k = o :=
  progress_of_known (by rw [known, h, Option.some_or]) ho

/-- Nothing is known of an identity, or nothing but an empty dictionary. -/
theorem progress_of_unknown (h : c.slot? k = none)
    (hp : ∀ p, persisted k = some p → p.isEmpty = true) :
    c.progress persisted k = { key := k } := by
  unfold progress Offset.recorded known
  rw [h, Option.none_or]
  cases hk : persisted k with
  | none => rfl
  | some p =>
    obtain ⟨e, he⟩ := Offset.ofProperties_of_isEmpty (hp p hk)
    rw [Option.bind_some, he]
    rfl

/-- What becomes known of an identity once a lookup has succeeded. -/
def initial (k : OffsetKey) : (found : Option Properties) → Properties
  | none => k.properties
  | some p => if p.isEmpty then k.properties else p

/-- What becomes known is an offset of the identity: the one from which it goes on. -/
theorem ofProperties_initial (hr : Resumable persisted) (h : c.slot? k = none) :
    Offset.ofProperties (initial k (persisted k)) = .ok (c.progress persisted k) ∧
      (c.progress persisted k).key = k := by
  cases hp : persisted k with
  | none =>
    rw [progress_of_unknown h (by simp [hp])]
    exact ⟨Offset.ofProperties_identity k, rfl⟩
  | some p =>
    cases hempty : p.isEmpty with
    | true =>
      rw [progress_of_unknown h (by simp [hp, hempty]), initial, if_pos hempty]
      exact ⟨Offset.ofProperties_identity k, rfl⟩
    | false =>
      obtain ⟨o, ho, hk⟩ := hr k p hp hempty
      rw [progress_of_known (by rw [known, h, Option.none_or, hp]) ho, initial, hempty]
      exact ⟨ho, hk⟩

/-- Wrapping the error changes nothing of a success. -/
theorem mapError_eq_ok {ε ε' α : Type} {x : Except ε α} {wrap : ε → ε'} {a : α} :
    x.mapError wrap = .ok a ↔ x = .ok a := by
  cases x with
  | error e => exact ⟨nofun, nofun⟩
  | ok b =>
    constructor
    · intro h
      rw [Except.ok.inj h]
    · intro h
      rw [Except.ok.inj h]
      rfl

variable {τ : Type} [OffsetStore τ] {t t' : τ}

theorem get_of_known {p : Properties} (h : c.slot? k = some p) (t : τ) :
    c.get t k = ((Offset.ofProperties p).mapError .offset, c, t) := by
  simp [get, getWith, load, h]

theorem get_of_failure {e : StoreError} (h : c.slot? k = none)
    (hl : OffsetStore.lookup t k.properties = (.error e, t')) :
    c.get t k = (.error (.store e), c, t') := by
  simp [get, getWith, load, h, hl]

/-- The first lookup that succeeds answers as all later ones do: the offset without records that
it gives when there are no properties is the one read back from the identity. -/
theorem get_of_found {found : Option Properties} (h : c.slot? k = none)
    (hl : OffsetStore.lookup t k.properties = (.ok found, t')) :
    c.get t k = ((Offset.ofProperties (initial k found)).mapError .offset,
      c.fill k (initial k found), t') := by
  have hidentity : (Offset.ofProperties k.properties).mapError Error.offset = .ok { key := k } := by
    rw [Offset.ofProperties_identity]
    rfl
  cases found with
  | none => simp [get, getWith, load, h, hl, initial, hidentity]
  | some p => cases hp : p.isEmpty <;> simp [get, getWith, load, h, hl, hp, initial, hidentity]

/-- An offset that the cache returns was read from properties. -/
theorem ofProperties_of_get {o : Offset} (h : c.get t k = (.ok o, c', t')) :
    ∃ p, Offset.ofProperties p = .ok o := by
  cases hslot : c.slot? k with
  | some p =>
    rw [get_of_known hslot] at h
    exact ⟨p, mapError_eq_ok.1 (congrArg Prod.fst h)⟩
  | none =>
    obtain ⟨⟨found, t₀⟩, hl⟩ : ∃ out, OffsetStore.lookup t k.properties = out := ⟨_, rfl⟩
    cases found with
    | error e =>
      rw [get_of_failure hslot hl] at h
      simp at h
    | ok found =>
      rw [get_of_found hslot hl] at h
      exact ⟨_, mapError_eq_ok.1 (congrArg Prod.fst h)⟩

variable [OffsetHolder τ]

/-- **A lookup gives the offset from which an identity goes on**, which then is in the cache, or
it fails with the store's error and changes nothing. -/
theorem get_cases (hr : Resumable persisted) (hc : c.SlotOK k) {t : τ}
    (ht : OffsetHolder.Holds t persisted) :
    (∃ c' t' p, c.get t k = (.ok (c.progress persisted k), c', t') ∧
      (c.progress persisted k).key = k ∧ c'.slot? k = some p ∧
      Offset.ofProperties p = .ok (c.progress persisted k) ∧
      (∀ l, l ≠ k → c'.slot? l = c.slot? l) ∧
      OffsetHolder.Holds t' persisted ∧ OffsetHolder.faults t' = OffsetHolder.faults t) ∨
    (∃ e t', c.get t k = (.error (.store e), c, t') ∧ e.isTransient = true ∧
      OffsetHolder.Holds t' persisted ∧ OffsetHolder.faults t = OffsetHolder.faults t' + 1) := by
  cases hslot : c.slot? k with
  | some p =>
    obtain ⟨o, ho, hk⟩ := hc p hslot
    left
    rw [progress_of_slot hslot ho]
    exact ⟨c, t, p, by rw [get_of_known hslot, ho]; rfl, hk, hslot, ho, fun _ _ => rfl, ht, rfl⟩
  | none =>
    rcases OffsetHolder.lookup_cases ht k with ⟨t', hl, ht', hf⟩ | ⟨e, t', hl, he, ht', hf⟩
    · obtain ⟨ho, hk⟩ := ofProperties_initial hr hslot
      let p := initial k (persisted k)
      refine .inl ⟨c.fill k p, t', p, ?_, hk, ?_, ho, ?_, ht', hf⟩
      · rw [get_of_found hslot hl, ho]
        rfl
      · rw [slot?_fill, if_pos rfl]
      · intro l hne
        rw [slot?_fill, if_neg hne]
    · exact .inr ⟨e, t', get_of_failure hslot hl, he, ht', hf⟩

theorem slot?_update (c : OffsetCache) (o : Offset) (k : OffsetKey) :
    (c.update o).slot? k =
      if k = o.key then
        some (match c.slot? o.key with
          | some p => p.merge o.properties
          | none => o.properties)
      else c.slot? k := by
  unfold update
  cases c.slot? o.key <;> simp

/-- The progress of an object that is being read replaces what was known of it. -/
theorem slot?_update_self {o : Offset} {n : Nat} (h : (∃ p, c.slot? o.key = some p ∧
      Offset.ofProperties p = .ok { o with count := n }) ∨
      c.slot? o.key = some { o with count := n }.properties) :
    (c.update o).slot? o.key = some o.properties := by
  rw [slot?_update, if_pos rfl]
  rcases h with ⟨p, hp, ho⟩ | hp
  · rw [hp]
    exact congrArg some (Offset.merge_properties (o := { o with count := n }) o.count ho)
  · rw [hp]
    exact congrArg some (Offset.merge_properties_self o n o.count)

end OffsetCache

end ObjectFeed
