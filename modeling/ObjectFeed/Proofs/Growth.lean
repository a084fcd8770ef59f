import ObjectFeed.Proofs.Recording
import ObjectFeed.Proofs.Holding

/-!
# Listings of a bucket that grows

Objects may arrive between the requests of a listing, and replace others. The pages still list the
keys in order and each of them once: every request asks for the keys after the last one that was
listed.

* `MemoryObjects.stock`: the objects of a bucket, none if it is missing.
* `Recorded.listed`, `frontier`: the objects that pages have listed, and the last key among them.
* `Recorded.Awaits`: a key that has been listed or is yet to be listed.
* `Catalogue`: **what a listing in progress has listed, and what it asks for next.**
* `Catalogue.step_cases`: what one step of the listing can do.
-/

namespace ObjectFeed

open MemoryObjects (isAfter matching mem_matching page startsWith tokenMark)

theorem Members.mem_of_get? {α : Type} {ms : Members α} {k : String} {x : α}
    (h : ms.get? k = some x) : (k, x) ∈ ms := by
  induction ms with
  | nil => simp [get?] at h
  | cons b ms ih =>
    obtain ⟨l, y⟩ := b
    simp only [get?] at h
    split at h
    · rename_i hk
      cases hk
      cases h
      exact List.mem_cons_self
    · exact List.mem_cons_of_mem _ (ih h)

namespace MemoryObjects

/-- The objects of a bucket. -/
def stock (s : MemoryObjects) (bucket : String) : Dict Body := (s.buckets.get? bucket).getD ∅

theorem stock_congr {s s' : MemoryObjects} (h : s'.buckets = s.buckets) : s'.stock = s.stock := by
  unfold stock
  rw [h]

theorem get?_stock_put (s : MemoryObjects) (bucket key : String) (body : Body) (b k : String) :
    ((s.put bucket key body).stock b).get? k =
      if b = bucket ∧ k = key then some body else (s.stock b).get? k := by
  unfold stock put
  rw [Dict.get?_insert]
  by_cases hb : b = bucket
  · rw [if_pos hb, Option.getD_some, Dict.get?_insert, hb]
    simp
  · rw [if_neg hb, if_neg (by simp [hb])]

theorem buckets_fetch (s : MemoryObjects) (bucket key : String) :
    (ObjectStore.fetch s bucket key).2.buckets = s.buckets := by
  simp only [ObjectStore.fetch, fetch]
  split
  · rfl
  · split <;> rfl

/-- The store hands out what it holds. -/
theorem get?_stock_of_fetch {s s' : MemoryObjects} {bucket key : String} {body : Body}
    (h : ObjectStore.fetch s bucket key = (.ok body, s')) :
    (s.stock bucket).get? key = some body := by
  simp only [ObjectStore.fetch, fetch] at h
  unfold stock
  split at h
  · simp at h
  · split at h
    · rename_i hb
      rw [← Except.ok.inj (Prod.mk.inj h).1]
      cases hd : s.buckets.get? bucket with
      | none => simp [hd] at hb
      | some objects => simpa [hd] using hb
    · simp at h

/-- An object that is stored under a key is among those that are asked for. -/
theorem exists_mem_matching {objects : Dict Body} {keyPrefix after : Option String} {key : String}
    {body : Body} (h : objects.get? key = some body) (hp : startsWith keyPrefix key = true)
    (ha : isAfter after key = true) : ∃ s ∈ matching objects keyPrefix after, s.key = key := by
  refine ⟨⟨key, body.size⟩, List.mem_map.2 ⟨(key, body), ?_, rfl⟩, rfl⟩
  exact List.mem_filter.2 ⟨Members.mem_of_get? h, by simp [hp, ha]⟩

/-- Fewer objects come after one of those that are asked for. -/
theorem length_matching_lt {objects : Dict Body} {keyPrefix after : Option String} {key : String}
    {body : Body} (h : objects.get? key = some body) (hp : startsWith keyPrefix key = true)
    (ha : isAfter after key = true) :
    (matching objects keyPrefix (some key)).length < (matching objects keyPrefix after).length := by
  obtain ⟨s, hs, rfl⟩ := exists_mem_matching h hp ha
  rw [matching_filter ha]
  refine List.length_filter_lt_length_iff_exists.2 ⟨s, hs, ?_⟩
  simp [isAfter]

/-- The answer to a request is a page of the objects of the bucket, unless there is no bucket. -/
theorem answer_cases (s : MemoryObjects) {r : ListRequest} {after : Option String}
    (hr : r.StartsAfter after) :
    s.answer r = .ok (page r.maxKeys (matching (s.stock r.bucket) r.keyPrefix after)) ∨
      ∃ e, s.answer r = .error e := by
  cases hb : s.buckets.get? r.bucket with
  | some objects =>
    left
    rw [answer_eq hr hb, stock, hb]
    rfl
  | none =>
    right
    unfold answer
    rcases hr with ⟨ht, hs⟩ | ⟨token, key, ht, hs, hk, ha⟩
    · exact ⟨_, by simp [ht, hb, bind, Except.bind, pure, Except.pure]; rfl⟩
    · exact ⟨_, by simp [ht, hs, hb, hk, bind, Except.bind, pure, Except.pure]; rfl⟩

end MemoryObjects

/-- The key after which a listing goes on that has found some objects. -/
def frontier (found : List Summary) : Option String := found.getLast?.map (·.key)

theorem frontier_concat (found : List Summary) (s : Summary) :
    frontier (found ++ [s]) = some s.key := by
  simp [frontier]

theorem frontier_append {found more : List Summary} {s : Summary} (h : more.getLast? = some s) :
    frontier (found ++ more) = some s.key := by
  obtain ⟨front, rfl⟩ := List.getLast?_eq_some_iff.1 h
  rw [← List.append_assoc, frontier_concat]

/-- Keys after the last one are after all of them. -/
theorem lt_of_isAfter_frontier {found : List Summary}
    (h : found.Pairwise fun a b => a.key < b.key) {s : Summary} (hs : s ∈ found) {key : String}
    (hk : isAfter (frontier found) key = true) : s.key < key := by
  rcases List.eq_nil_or_concat found with rfl | ⟨front, t, rfl⟩
  · simp at hs
  · rw [List.concat_eq_append] at h hs hk
    rw [frontier_concat] at hk
    simp only [isAfter, decide_eq_true_eq] at hk
    obtain ⟨-, -, hcross⟩ := List.pairwise_append.1 h
    rcases List.mem_append.1 hs with hs | hs
    · exact String.lt_trans (hcross s hs t (List.mem_singleton.2 rfl)) hk
    · rw [List.mem_singleton.1 hs]
      exact hk

theorem isAfter_frontier {found : List Summary} {key : String} (h : ∀ s ∈ found, s.key < key) :
    isAfter (frontier found) key = true := by
  rcases List.eq_nil_or_concat found with rfl | ⟨front, t, rfl⟩
  · rfl
  · rw [List.concat_eq_append] at h ⊢
    rw [frontier_concat]
    exact decide_eq_true (h t (List.mem_append_right _ (List.mem_singleton.2 rfl)))

/-- A page and the keys after the last one in it are all that was asked for. -/
theorem page_split (maxKeys : Nat) (objects : Dict Body) (keyPrefix : Option String)
    (found : List Summary) :
    let p := page maxKeys (matching objects keyPrefix (frontier found))
    matching objects keyPrefix (frontier found) =
        p.objects ++ matching objects keyPrefix (frontier (found ++ p.objects)) ∧
      ((p.next = none ∧ matching objects keyPrefix (frontier (found ++ p.objects)) = []) ∨
        ∃ key, p.next = some (tokenMark ++ key) ∧ frontier (found ++ p.objects) = some key ∧
          p.objects ≠ []) := by
  intro p
  rcases Listing.page_cases maxKeys objects keyPrefix (frontier found) with
    ⟨hnone, hall⟩ | ⟨s, hsome, hlast, hall⟩
  · -- the last page: nothing is left after its last object, or after the frontier if it is empty
    have hrest : matching objects keyPrefix (frontier (found ++ p.objects)) = [] := by
      rw [hall]
      rcases List.eq_nil_or_concat (matching objects keyPrefix (frontier found)) with
        hnil | ⟨front, t, hconcat⟩
      · rw [hnil, List.append_nil, hnil]
      · rw [List.concat_eq_append] at hconcat
        rw [hconcat, ← List.append_assoc, frontier_concat]
        exact MemoryObjects.matching_of_append front hconcat
    exact ⟨by rw [hrest, List.append_nil, hall], .inl ⟨hnone, hrest⟩⟩
  · have hfrontier : frontier (found ++ p.objects) = some s.key := frontier_append hlast
    refine ⟨by rw [hfrontier]; exact hall, .inr ⟨s.key, hsome, hfrontier, ?_⟩⟩
    intro hnil
    rw [hnil] at hlast
    simp at hlast

namespace Recorded

/-- The objects that the pages so far have listed. -/
def listed {σ : Type} (s : Recorded σ) : List Summary := s.exchanges.flatMap Exchange.objects

variable (s : Recorded MemoryObjects) (lister : Lister)

/-- Stores an object, in place of another one under the same key. -/
def put (bucket key : String) (body : Body) : Recorded MemoryObjects :=
  { s with store := s.store.put bucket key body }

/-- The key has been listed, or an object is stored under it that is yet to be listed. -/
def Awaits (key : String) : Prop :=
  (∃ x ∈ s.listed, x.key = key) ∨
    (startsWith lister.keyPrefix key = true ∧
      (∃ body, (s.store.stock lister.bucket).get? key = some body) ∧
      isAfter (frontier s.listed) key = true)

/-- Nothing is stored after the last key that has been listed. -/
def Exhausted : Prop :=
  matching (s.store.stock lister.bucket) lister.keyPrefix (frontier s.listed) = []

variable {s lister}

/-- When nothing is left, the keys that were awaited have been listed. -/
theorem Awaits.listed_of_exhausted {key : String} (h : s.Awaits lister key)
    (hnone : s.Exhausted lister) : ∃ x ∈ s.listed, x.key = key := by
  rcases h with h | ⟨hp, ⟨body, hb⟩, ha⟩
  · exact h
  · obtain ⟨x, hx, -⟩ := MemoryObjects.exists_mem_matching hb hp ha
    rw [hnone] at hx
    simp at hx

theorem get?_stock_put {bucket key : String} {body : Body} {k : String} {x : Body}
    (h : (s.store.stock lister.bucket).get? k = some x) :
    ∃ y, ((s.put bucket key body).store.stock lister.bucket).get? k = some y := by
  unfold put
  rw [MemoryObjects.get?_stock_put]
  split
  · exact ⟨body, rfl⟩
  · exact ⟨x, h⟩

theorem Awaits.congr {s' : Recorded MemoryObjects} {key : String} (h : s.Awaits lister key)
    (hb : s'.store.buckets = s.store.buckets) (hlisted : s'.listed = s.listed) :
    s'.Awaits lister key := by
  unfold Awaits at h ⊢
  rw [hlisted, MemoryObjects.stock_congr hb]
  exact h

/-- What a page lists is no longer to be listed, and the rest still is. -/
theorem Awaits.page {s' : Recorded MemoryObjects} {key : String} (h : s.Awaits lister key)
    (hb : s'.store.buckets = s.store.buckets) {found : List Summary}
    (hlisted : s'.listed = s.listed ++ found)
    (hsplit : matching (s.store.stock lister.bucket) lister.keyPrefix (frontier s.listed) =
      found ++ matching (s.store.stock lister.bucket) lister.keyPrefix (frontier s'.listed)) :
    s'.Awaits lister key := by
  unfold Awaits
  rw [MemoryObjects.stock_congr hb]
  rcases h with ⟨x, hx, hkey⟩ | ⟨hstart, ⟨body, hbody⟩, hafter⟩
  · exact .inl ⟨x, by rw [hlisted]; exact List.mem_append_left _ hx, hkey⟩
  · obtain ⟨x, hx, rfl⟩ := MemoryObjects.exists_mem_matching hbody hstart hafter
    rw [hsplit] at hx
    rcases List.mem_append.1 hx with hx | hx
    · exact .inl ⟨x, by rw [hlisted]; exact List.mem_append_right _ hx, rfl⟩
    · exact .inr ⟨hstart, ⟨body, hbody⟩, (mem_matching hx).2.1⟩

/-- An object that arrives takes nothing away. -/
theorem Awaits.put {k : String} (h : s.Awaits lister k) (bucket key : String) (body : Body) :
    (s.put bucket key body).Awaits lister k := by
  rcases h with h | ⟨hp, ⟨x, hx⟩, ha⟩
  · exact .inl h
  · exact .inr ⟨hp, get?_stock_put hx, ha⟩

end Recorded

/-- The listing lists what its lister says, and its next request asks for the keys after a given
one. -/
structure Listing.Browses (l : Listing) (lister : Lister) (after : Option String) : Prop where
  bucket : l.request.bucket = lister.bucket
  keyPrefix : l.request.keyPrefix = lister.keyPrefix
  request : l.done = false → l.request.StartsAfter after

/-- After a page the next request has its token, which stands for the last key in it. -/
theorem Listing.Browses.accept {l : Listing} {lister : Lister} {after after' : Option String}
    (h : l.Browses lister after) {p : Page}
    (hnext : p.next = none ∨ ∃ key, p.next = some (tokenMark ++ key) ∧ after' = some key) :
    (l.accept p).Browses lister after' := by
  rcases hnext with hnone | ⟨key, hsome, hkey⟩
  · refine ⟨?_, ?_, ?_⟩ <;> simp [Listing.accept, hnone, h.bucket, h.keyPrefix]
  · refine ⟨?_, ?_, fun _ => .inr ⟨tokenMark ++ key, key, ?_, ?_, ?_, hkey⟩⟩
    all_goals simp [Listing.accept, hsome, h.bucket, h.keyPrefix,
      MemoryObjects.keyOfToken?_tokenMark]

/-- What pages have listed is what was delivered, up to the last key, and what a listing in progress
has in its buffer. The keys ascend, and the listing goes on after the last one. -/
structure Catalogue (lister : Lister) (seen : List Summary) (listing : Option Listing)
    (lastKey : Option String) (s : Recorded MemoryObjects) : Prop where
  listed : s.listed = seen ++ listing.elim [] fun l => l.buffer
  lastKey : lastKey = frontier seen
  ascending : s.listed.Pairwise fun a b => a.key < b.key
  stored : ∀ x ∈ s.listed, startsWith lister.keyPrefix x.key = true ∧
    ∃ body, (s.store.stock lister.bucket).get? x.key = some body
  browses : ∀ l, listing = some l → l.Browses lister (frontier s.listed)

namespace Catalogue

variable {lister : Lister} {seen : List Summary} {listing : Option Listing}
variable {lastKey : Option String} {s s' : Recorded MemoryObjects} {l : Listing}

/-- Only the objects that are stored and those that have been listed matter. -/
theorem congr (h : Catalogue lister seen listing lastKey s)
    (hb : s'.store.buckets = s.store.buckets) (hlisted : s'.listed = s.listed) :
    Catalogue lister seen listing lastKey s' := by
  have hstock := MemoryObjects.stock_congr hb
  refine ⟨hlisted.trans h.listed, h.lastKey, hlisted ▸ h.ascending, ?_, hlisted ▸ h.browses⟩
  rw [hlisted, hstock]
  exact h.stored

theorem put (h : Catalogue lister seen listing lastKey s) (bucket key : String) (body : Body) :
    Catalogue lister seen listing lastKey (s.put bucket key body) where
  listed := h.listed
  lastKey := h.lastKey
  ascending := h.ascending
  stored x hx := by
    obtain ⟨hp, y, hy⟩ := h.stored x hx
    exact ⟨hp, Recorded.get?_stock_put hy⟩
  browses := h.browses

/-- A listing that begins goes on after the last key. -/
theorem begin (h : Catalogue lister seen none lastKey s) :
    Catalogue lister seen (some (lister.start lastKey)) lastKey s where
  listed := h.listed
  lastKey := h.lastKey
  ascending := h.ascending
  stored := h.stored
  browses l hl := by
    cases hl
    have hlisted : s.listed = seen := h.listed.trans (List.append_nil seen)
    refine ⟨rfl, rfl, fun _ => .inl ⟨rfl, ?_⟩⟩
    rw [hlisted]
    exact h.lastKey

/-- A listing that is over or has failed has nothing in its buffer. -/
theorem finish (h : Catalogue lister seen (some l) lastKey s) (hb : l.buffer = []) :
    Catalogue lister seen none lastKey s where
  listed := by
    rw [h.listed]
    exact congrArg (seen ++ ·) hb
  lastKey := h.lastKey
  ascending := h.ascending
  stored := h.stored
  browses l hl := by cases hl

/-- The next object of the buffer comes after all that were delivered. -/
theorem pop {x : Summary} {buffer : List Summary}
    (h : Catalogue lister seen (some l) lastKey s) (hb : l.buffer = x :: buffer) :
    Catalogue lister (seen ++ [x]) (some { l with buffer }) (some x.key) s ∧
      ∀ y ∈ seen, y.key < x.key := by
  have hlisted : s.listed = seen ++ x :: buffer := by
    rw [h.listed]
    exact congrArg (seen ++ ·) hb
  refine ⟨⟨?_, (frontier_concat seen x).symm, h.ascending, h.stored, ?_⟩, ?_⟩
  · rw [hlisted, List.append_assoc]
    rfl
  · rintro _ ⟨⟩
    exact ⟨(h.browses l rfl).bucket, (h.browses l rfl).keyPrefix, (h.browses l rfl).request⟩
  · have hascending := h.ascending
    rw [hlisted] at hascending
    obtain ⟨-, -, hcross⟩ := List.pairwise_append.1 hascending
    exact fun y hy => hcross y hy x List.mem_cons_self

/-- A page that is received goes on where those before it have ended, and leaves nothing out. -/
theorem accept (h : Catalogue lister seen (some l) lastKey s) (hb : l.buffer = [])
    (hd : l.done = false) (hs : s'.store.buckets = s.store.buckets) {p : Page}
    (hp : p = page l.request.maxKeys
      (matching (s.store.stock lister.bucket) lister.keyPrefix (frontier s.listed)))
    (hlisted : s'.listed = s.listed ++ p.objects) :
    Catalogue lister seen (some (l.accept p)) lastKey s' ∧
      (∀ key, s.Awaits lister key → s'.Awaits lister key) ∧
      ((l.accept p).done = true → s'.Exhausted lister) ∧
      ((l.accept p).buffer ≠ [] ∨ (l.accept p).done = true) := by
  have hstock := MemoryObjects.stock_congr hs
  obtain ⟨hsplit, hnext⟩ := page_split l.request.maxKeys (s.store.stock lister.bucket)
    lister.keyPrefix s.listed
  rw [← hp, ← hlisted] at hsplit hnext
  have hmem : ∀ x ∈ p.objects,
      x ∈ matching (s.store.stock lister.bucket) lister.keyPrefix (frontier s.listed) := by
    intro x hx
    rw [hsplit]
    exact List.mem_append_left _ hx
  have hbuffer := Listing.buffer_accept hb p
  have hlisted₀ : s.listed = seen := by
    rw [h.listed]
    exact (congrArg (seen ++ ·) hb).trans (List.append_nil seen)
  refine ⟨⟨?_, h.lastKey, ?_, ?_, ?_⟩, fun key hkey => hkey.page hs hlisted hsplit, ?_, ?_⟩
  · rw [hlisted, hlisted₀]
    exact congrArg (seen ++ ·) hbuffer.symm
  · rw [hlisted]
    -- the page is in order, and all of it comes after what was listed before
    refine List.pairwise_append.2 ⟨h.ascending, ?_, ?_⟩
    · have hsorted := MemoryObjects.pairwise_matching (s.store.stock lister.bucket)
        lister.keyPrefix (frontier s.listed)
      rw [hsplit] at hsorted
      exact (List.pairwise_append.1 hsorted).1
    · intro x hx y hy
      exact lt_of_isAfter_frontier h.ascending hx (mem_matching (hmem y hy)).2.1
  · rw [hlisted, hstock]
    intro x hx
    rcases List.mem_append.1 hx with hx | hx
    · exact h.stored x hx
    · obtain ⟨hstart, -, body, hbody, -⟩ := mem_matching (hmem x hx)
      exact ⟨hstart, body, hbody⟩
  · rintro _ ⟨⟩
    refine (h.browses l rfl).accept ?_
    rcases hnext with ⟨hnone, -⟩ | ⟨key, hsome, hkey, -⟩
    · exact .inl hnone
    · exact .inr ⟨key, hsome, hkey⟩
  · intro hdone
    rcases hnext with ⟨-, hnone⟩ | ⟨key, hsome, -, -⟩
    · rw [← hstock] at hnone
      exact hnone
    · simp [Listing.accept, hsome, hd] at hdone
  · rcases hnext with ⟨hnone, -⟩ | ⟨key, -, -, hne⟩
    · exact .inr (by simp [Listing.accept, hnone])
    · exact .inl (by rw [hbuffer]; exact hne)

/-- **What one step of the listing can do**, if the store does not fail on purpose: deliver the
first object of the buffer, end, receive a page that goes on after the last key, or fail for want of
a bucket. -/
theorem step_cases (h : Catalogue lister seen (some l) lastKey s)
    (hl : s.store.listFailures = 0) (hq : s.store.queued = []) :
    (∃ x l', l.step s = (.item x, l', s) ∧ (∀ y ∈ seen, y.key < x.key) ∧ x ∈ s.listed ∧
      Catalogue lister (seen ++ [x]) (some l') (some x.key) s ∧ l'.done = l.done) ∨
    (l.step s = (.ended, l, s) ∧ Catalogue lister seen none lastKey s ∧ l.done = true) ∨
    (∃ l' s', l.step s = (.fetched, l', s') ∧ l.buffer = [] ∧ l.done = false ∧
      Catalogue lister seen (some l') lastKey s' ∧
      (∀ key, s.Awaits lister key → s'.Awaits lister key) ∧
      (l'.done = true → s'.Exhausted lister) ∧ (l'.buffer ≠ [] ∨ l'.done = true) ∧
      ∃ log exchanges, s' = ⟨{ s.store with listLog := log }, exchanges⟩) ∨
    (∃ e l' s', l.step s = (.failed e, l', s') ∧ Catalogue lister seen none lastKey s' ∧
      (∀ key, s.Awaits lister key → s'.Awaits lister key) ∧
      ∃ log exchanges, s' = ⟨{ s.store with listLog := log }, exchanges⟩) := by
  unfold Listing.step
  cases hb : l.buffer with
  | cons x buffer =>
    obtain ⟨hcatalogue, hbehind⟩ := h.pop hb
    refine .inl ⟨x, _, rfl, hbehind, ?_, hcatalogue, rfl⟩
    rw [hcatalogue.listed]
    exact List.mem_append_left _ (List.mem_append_right _ (List.mem_singleton.2 rfl))
  | nil =>
    right
    cases hd : l.done with
    | true => exact .inl ⟨by simp, h.finish hb, rfl⟩
    | false =>
      right
      have hbrowses := h.browses l rfl
      -- nothing is told to fail, so that a request fails only for want of a bucket
      rcases MemoryObjects.list_cases s.store l.request with ⟨-, -, hlist⟩ | ⟨hfails, -⟩
      · have hlist : ObjectStore.list s.store l.request = _ := hlist
        rw [Recorded.list_eq, hlist]
        rcases s.store.answer_cases (hbrowses.request hd) with hanswer | ⟨e, hanswer⟩
        · left
          rw [hanswer, hbrowses.bucket, hbrowses.keyPrefix]
          let p := page l.request.maxKeys
            (matching (s.store.stock lister.bucket) lister.keyPrefix (frontier s.listed))
          let s' : Recorded MemoryObjects :=
            ⟨{ s.store with listLog := s.store.listLog ++ [l.request] },
              s.exchanges ++ [⟨l.request, .ok p⟩]⟩
          have hbuckets : s'.store.buckets = s.store.buckets := rfl
          have hlisted : s'.listed = s.listed ++ p.objects := by
            simp [s', Recorded.listed, Exchange.objects]
          obtain ⟨hcatalogue, hawaits, hdone, hprogress⟩ := h.accept hb hd hbuckets rfl hlisted
          exact ⟨l.accept p, s', by simp [p, s'], rfl, rfl, hcatalogue, hawaits, hdone, hprogress,
            _, _, rfl⟩
        · right
          rw [hanswer]
          let s' : Recorded MemoryObjects :=
            ⟨{ s.store with listLog := s.store.listLog ++ [l.request] },
              s.exchanges ++ [⟨l.request, .error e⟩]⟩
          have hlisted : s'.listed = s.listed := by
            simp [s', Recorded.listed, Exchange.objects]
          exact ⟨e, { l with buffer := [], done := true }, s', by simp [s'],
            (h.finish hb).congr rfl hlisted, fun _ hkey => hkey.congr rfl hlisted, _, _, rfl⟩
      · exact absurd hfails (by simp [hl, hq])

end Catalogue

end ObjectFeed
