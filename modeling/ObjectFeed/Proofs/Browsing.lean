import Mathlib
import ObjectFeed.Proofs.Frame
import ObjectFeed.Proofs.Growth

/-!
# Browsing a bucket that grows

A single listing, between whose calls objects arrive. Its pages list the keys in order, and nothing
that was stored before the first request is left out when the listing ends. Every page but the last
one is full, so the number of requests is the number of pages that the objects fill.

* `Arrival`, `MemoryObjects.receive`: objects that arrive in a store.
* `Listing.Call`, `Listing.calls`: the states in which a listing is called.
* `Listing.Browsing`: what a listing has received, and what it asks for next.
* `Listing.Browsing.step`: **what a call does, and that it keeps that**; `Listing.Browsing.run`: so
  do calls in a row.
* `Lister.browse_complete`: **the order, the completeness and the cost of a listing.**
-/

namespace ObjectFeed

open MemoryObjects (isAfter matching mem_matching page startsWith tokenMark)

/-- An object that arrives in a bucket. -/
structure Arrival where
  bucket : String
  key : String
  body : Body

namespace MemoryObjects

/-- Stores the objects that arrive, one after the other. -/
def receive (s : MemoryObjects) (arrivals : List Arrival) : MemoryObjects :=
  arrivals.foldl (fun s a => s.put a.bucket a.key a.body) s

@[simp] theorem receive_nil (s : MemoryObjects) : s.receive [] = s := rfl

theorem receive_cons (s : MemoryObjects) (a : Arrival) (arrivals : List Arrival) :
    s.receive (a :: arrivals) = (s.put a.bucket a.key a.body).receive arrivals := rfl

/-- Arrivals tell nothing to fail. -/
theorem receive_quiet (s : MemoryObjects) (arrivals : List Arrival) :
    (s.receive arrivals).listFailures = s.listFailures ∧
      (s.receive arrivals).queued = s.queued := by
  induction arrivals generalizing s with
  | nil => exact ⟨rfl, rfl⟩
  | cons a arrivals ih => exact ih (s.put a.bucket a.key a.body)

/-- Arrivals leave something stored under every key under which something was. -/
theorem exists_get?_receive {s : MemoryObjects} {bucket key : String} {body : Body}
    (h : (s.stock bucket).get? key = some body) (arrivals : List Arrival) :
    ∃ body', ((s.receive arrivals).stock bucket).get? key = some body' := by
  induction arrivals generalizing s body with
  | nil => exact ⟨body, h⟩
  | cons a arrivals ih =>
    have hput := get?_stock_put s a.bucket a.key a.body bucket key
    rw [receive_cons]
    by_cases hhit : bucket = a.bucket ∧ key = a.key
    · rw [if_pos hhit] at hput
      exact ih hput
    · rw [if_neg hhit, h] at hput
      exact ih hput

/-- A bucket that holds something answers a request with a page. -/
theorem answer_of_get? {s : MemoryObjects} {r : ListRequest} {after : Option String} {key : String}
    {body : Body} (hr : r.StartsAfter after) (h : (s.stock r.bucket).get? key = some body) :
    s.answer r = .ok (page r.maxKeys (matching (s.stock r.bucket) r.keyPrefix after)) := by
  cases hb : s.buckets.get? r.bucket with
  | some objects =>
    rw [answer_eq hr hb, stock, hb]
    rfl
  | none =>
    rw [stock, hb, Option.getD_none, Dict.get?_empty] at h
    cases h

/-- A bucket that is missing holds nothing. -/
theorem stock_of_answer_error {s : MemoryObjects} {r : ListRequest} {after : Option String}
    {e : StoreError} (hr : r.StartsAfter after) (h : s.answer r = .error e) (key : String) :
    (s.stock r.bucket).get? key = none := by
  cases hget : (s.stock r.bucket).get? key with
  | none => rfl
  | some body =>
    rw [answer_of_get? hr hget] at h
    cases h

end MemoryObjects

/-- The most objects that a page of the lister has; a size of zero stands for 1000. -/
def Lister.pageBound (l : Lister) : Nat :=
  if l.pageSize = 0 then MemoryObjects.defaultPageSize else l.pageSize

theorem Lister.pageBound_pos (l : Lister) : 0 < l.pageBound := by
  unfold pageBound MemoryObjects.defaultPageSize
  split <;> omega

/-- A page has no more than its size, and just that many if others follow. -/
theorem Lister.length_page (l : Lister) (found : List Summary) :
    (page l.pageSize found).objects.length ≤ l.pageBound ∧
      ((page l.pageSize found).next ≠ none →
        (page l.pageSize found).objects.length = l.pageBound ∧ l.pageBound < found.length) := by
  have hobjects : (page l.pageSize found).objects = found.take l.pageBound := rfl
  rw [hobjects, List.length_take]
  refine ⟨Nat.min_le_left .., fun hnext => ?_⟩
  have hlt : l.pageBound < found.length := by
    by_contra hle
    exact hnext (if_neg hle)
  exact ⟨Nat.min_eq_left (Nat.le_of_lt hlt), hlt⟩

/-- The key after which a listing goes on that has found some objects, or else the one after which
it has started. -/
def edge (startAfter : Option String) (found : List Summary) : Option String :=
  (frontier found).or startAfter

theorem edge_of_frontier {startAfter : Option String} {found : List Summary} {key : String}
    (h : frontier found = some key) : edge startAfter found = some key := by
  rw [edge, h, Option.some_or]

/-- Keys after the edge are after all keys that were found, and after the start. -/
theorem lt_of_isAfter_edge {startAfter : Option String} {found : List Summary}
    (hascending : found.Pairwise fun a b => a.key < b.key)
    (hstart : ∀ x ∈ found, isAfter startAfter x.key = true) {key : String}
    (hkey : isAfter (edge startAfter found) key = true) :
    (∀ x ∈ found, x.key < key) ∧ isAfter startAfter key = true := by
  rcases List.eq_nil_or_concat found with rfl | ⟨front, last, rfl⟩
  · exact ⟨by simp, hkey⟩
  · rw [List.concat_eq_append] at hascending hstart hkey ⊢
    have hfrontier := frontier_concat front last
    rw [edge_of_frontier hfrontier] at hkey
    rw [← hfrontier] at hkey
    refine ⟨fun x hx => lt_of_isAfter_frontier hascending hx hkey, ?_⟩
    rw [hfrontier] at hkey
    exact MemoryObjects.isAfter_trans (hstart last (by simp)) hkey

/-- What a lister lists of a store after what was found before. -/
def Lister.ahead (l : Lister) (startAfter : Option String) (s : MemoryObjects)
    (found : List Summary) : List Summary :=
  matching (s.stock l.bucket) l.keyPrefix (edge startAfter found)

theorem Lister.mem_ahead {l : Lister} {startAfter : Option String} {s : MemoryObjects}
    {found : List Summary} {x : Summary} (h : x ∈ l.ahead startAfter s found) :
    startsWith l.keyPrefix x.key = true ∧ isAfter (edge startAfter found) x.key = true ∧
      ∃ body, (s.stock l.bucket).get? x.key = some body ∧ x.size = body.size :=
  mem_matching h

/-- What is ahead stays ahead when objects arrive, though others may take its place. -/
theorem Lister.ahead_receive {l : Lister} {startAfter : Option String} {s : MemoryObjects}
    {found : List Summary} {x : Summary} (h : x ∈ l.ahead startAfter s found)
    (arrivals : List Arrival) :
    ∃ y ∈ l.ahead startAfter (s.receive arrivals) found, y.key = x.key := by
  obtain ⟨hstarts, hafter, body, hbody, -⟩ := mem_ahead h
  obtain ⟨body', hbody'⟩ := MemoryObjects.exists_get?_receive hbody arrivals
  exact MemoryObjects.exists_mem_matching hbody' hstarts hafter

namespace Listing

/-- A state in which a listing is called. -/
structure Call where
  listing : Listing
  store : MemoryObjects

namespace Call

variable (limit : Nat) (c : Call)

/-- What the call returns. -/
def outcome : Option (Except StoreError Summary) := (c.listing.next limit c.store).1

/-- The object that the call delivers, if it does. -/
def object? : Option Summary :=
  match c.outcome limit with
  | some (.ok x) => some x
  | _ => none

/-- The requests that the call sends, with their answers. -/
def exchanges : List Exchange :=
  (c.listing.next limit (⟨c.store, []⟩ : Recorded MemoryObjects)).2.2.exchanges

end Call

/-- The states in which a listing is called, when some objects arrive before each call. -/
def calls (limit : Nat) : (rounds : List (List Arrival)) → Listing → MemoryObjects → List Call
  | [], _, _ => []
  | arrivals :: rounds, l, s =>
    let c : Call := ⟨l, s.receive arrivals⟩
    match l.next limit c.store with
    | (_, l, s) => c :: calls limit rounds l s

/-- A listing that has received some pages and delivered some objects. Nothing that was stored
`first` is left out: it has been listed, or it is ahead. -/
structure Browsing (lister : Lister) (startAfter : Option String) (first : Dict Body) (l : Listing)
    (s : MemoryObjects) (pages : List (List Summary)) (yielded : List Summary) : Prop where
  quiet : s.listFailures = 0 ∧ s.queued = []
  listed : pages.flatten = yielded ++ l.buffer
  ascending : pages.flatten.Pairwise fun a b => a.key < b.key
  found : ∀ x ∈ pages.flatten,
    startsWith lister.keyPrefix x.key = true ∧ isAfter startAfter x.key = true
  request : l.done = false → l.request.bucket = lister.bucket ∧
    l.request.keyPrefix = lister.keyPrefix ∧ l.request.maxKeys = lister.pageSize ∧
    l.request.StartsAfter (edge startAfter pages.flatten)
  complete : ∀ key body, first.get? key = some body → startsWith lister.keyPrefix key = true →
    isAfter startAfter key = true → (∃ x ∈ pages.flatten, x.key = key) ∨
      l.done = false ∧ ∃ x ∈ lister.ahead startAfter s pages.flatten, x.key = key
  full : l.done = false → ∀ p ∈ pages, p.length = lister.pageBound
  more : l.done = false → pages ≠ [] → ∃ x, x ∈ lister.ahead startAfter s pages.flatten
  last : l.done = true → ∃ front p, pages = front ++ [p] ∧
    (∀ q ∈ front, q.length = lister.pageBound) ∧ p.length ≤ lister.pageBound ∧
    (front = [] ∨ p ≠ [])

namespace Browsing

variable {lister : Lister} {startAfter : Option String} {first : Dict Body} {l : Listing}
variable {s s' : MemoryObjects} {pages : List (List Summary)} {yielded : List Summary}

/-- A listing that begins has received nothing, and all that is stored is first. -/
theorem start (lister : Lister) (startAfter : Option String) (hl : s.listFailures = 0)
    (hq : s.queued = []) :
    Browsing lister startAfter (s.stock lister.bucket) (lister.start startAfter) s [] [] where
  quiet := ⟨hl, hq⟩
  listed := rfl
  ascending := List.Pairwise.nil
  found := by simp
  request _ := ⟨rfl, rfl, rfl, .inl ⟨rfl, rfl⟩⟩
  complete _ _ hkey hstarts hafter :=
    .inr ⟨rfl, MemoryObjects.exists_mem_matching hkey hstarts hafter⟩
  full _ := by simp
  more _ hne := absurd rfl hne
  last h := by simp [Lister.start] at h

/-- Objects that arrive take nothing away. -/
theorem receive (h : Browsing lister startAfter first l s pages yielded)
    (arrivals : List Arrival) :
    Browsing lister startAfter first l (s.receive arrivals) pages yielded where
  quiet := by
    obtain ⟨hl, hq⟩ := s.receive_quiet arrivals
    exact ⟨hl.trans h.quiet.1, hq.trans h.quiet.2⟩
  listed := h.listed
  ascending := h.ascending
  found := h.found
  request := h.request
  complete key body hkey hstarts hafter := by
    rcases h.complete key body hkey hstarts hafter with hx | ⟨hd, x, hx, rfl⟩
    · exact .inl hx
    · exact .inr ⟨hd, Lister.ahead_receive hx arrivals⟩
  full := h.full
  more hd hne := by
    obtain ⟨x, hx⟩ := h.more hd hne
    obtain ⟨y, hy, -⟩ := Lister.ahead_receive hx arrivals
    exact ⟨y, hy⟩
  last := h.last

/-- The first object of the buffer is delivered. -/
theorem pop {x : Summary} {buffer : List Summary}
    (h : Browsing lister startAfter first l s pages yielded) (hb : l.buffer = x :: buffer) :
    Browsing lister startAfter first { l with buffer } s pages (yielded ++ [x]) :=
  ⟨h.quiet, by rw [h.listed, hb, List.append_assoc]; rfl, h.ascending, h.found, h.request,
    h.complete, h.full, h.more, h.last⟩

/-- A request that fails for want of a bucket was the first one, and ends the listing. -/
theorem fail (h : Browsing lister startAfter first l s pages yielded) (hd : l.done = false)
    (hs : s' = { s with listLog := s'.listLog }) {e : StoreError}
    (he : s.answer l.request = .error e) :
    Browsing lister startAfter first { l with done := true } s' (pages ++ [[]]) yielded := by
  obtain ⟨hbucket, -, -, hstarts⟩ := h.request hd
  have hnone : ∀ x, x ∉ lister.ahead startAfter s pages.flatten := by
    intro x hx
    obtain ⟨-, -, body, hbody, -⟩ := Lister.mem_ahead hx
    have hmissing := MemoryObjects.stock_of_answer_error hstarts he x.key
    rw [hbucket, hbody] at hmissing
    cases hmissing
  -- something is ahead after a page with a token
  have hpages : pages = [] := by
    by_contra hne
    obtain ⟨x, hx⟩ := h.more hd hne
    exact hnone x hx
  subst hpages
  rw [hs]
  refine ⟨h.quiet, by simpa using h.listed, by simp, by simp, by simp, ?_, by simp, by simp, ?_⟩
  · intro key body hkey hkeyPrefix hafter
    rcases h.complete key body hkey hkeyPrefix hafter with ⟨x, hx, -⟩ | ⟨-, x, hx, -⟩
    · cases hx
    · exact absurd hx (hnone x)
  · exact fun _ => ⟨[], [], rfl, by simp, by simp, .inl rfl⟩

/-- What a page lists of what is ahead comes after all that was listed before it. -/
theorem append (h : Browsing lister startAfter first l s pages yielded) {objects : List Summary}
    (hsub : objects.Sublist (lister.ahead startAfter s pages.flatten)) :
    ((pages ++ [objects]).flatten.Pairwise fun a b => a.key < b.key) ∧
      ∀ x ∈ (pages ++ [objects]).flatten,
        startsWith lister.keyPrefix x.key = true ∧ isAfter startAfter x.key = true := by
  have hbehind : ∀ x ∈ objects, (∀ y ∈ pages.flatten, y.key < x.key) ∧
      isAfter startAfter x.key = true := by
    intro x hx
    obtain ⟨-, hedge, -⟩ := Lister.mem_ahead (hsub.subset hx)
    exact lt_of_isAfter_edge h.ascending (fun y hy => (h.found y hy).2) hedge
  have hsorted := MemoryObjects.pairwise_matching (s.stock lister.bucket) lister.keyPrefix
    (edge startAfter pages.flatten)
  rw [List.flatten_append, List.flatten_singleton]
  refine ⟨List.pairwise_append.2 ⟨h.ascending, hsorted.sublist hsub, ?_⟩, ?_⟩
  · exact fun y hy x hx => (hbehind x hx).1 y hy
  · intro x hx
    rcases List.mem_append.1 hx with hx | hx
    · exact h.found x hx
    · exact ⟨(Lister.mem_ahead (hsub.subset hx)).1, (hbehind x hx).2⟩

/-- A page without a token lists all that is ahead, and the listing is over. -/
theorem accept_last (h : Browsing lister startAfter first l s pages yielded) (hb : l.buffer = [])
    (hd : l.done = false) (hs : s' = { s with listLog := s'.listLog }) {p : Page}
    (hnext : p.next = none) (hall : p.objects = lister.ahead startAfter s pages.flatten)
    (hlength : p.objects.length ≤ lister.pageBound) :
    Browsing lister startAfter first (l.accept p) s' (pages ++ [p.objects]) yielded := by
  have hdone : (l.accept p).done = true := by simp [Listing.accept, hnext]
  have hnot : ¬ (l.accept p).done = false := by simp [hdone]
  have hsub : p.objects.Sublist (lister.ahead startAfter s pages.flatten) := by
    rw [hall]
  obtain ⟨hascending, hfound⟩ := h.append hsub
  have hflatten : (pages ++ [p.objects]).flatten = pages.flatten ++ p.objects := by simp
  refine ⟨by rw [hs]; exact h.quiet, ?_, hascending, hfound, fun hf => absurd hf hnot, ?_,
    fun hf => absurd hf hnot, fun hf => absurd hf hnot, fun _ => ?_⟩
  · rw [hflatten, buffer_accept hb, h.listed, hb, List.append_nil]
  · intro key body hkey hkeyPrefix hafter
    rw [hflatten, hall]
    rcases h.complete key body hkey hkeyPrefix hafter with ⟨x, hx, hk⟩ | ⟨-, x, hx, hk⟩
    · exact .inl ⟨x, List.mem_append_left _ hx, hk⟩
    · exact .inl ⟨x, List.mem_append_right _ hx, hk⟩
  · refine ⟨pages, p.objects, rfl, h.full hd, hlength, ?_⟩
    by_cases hpages : pages = []
    · exact .inl hpages
    · obtain ⟨x, hx⟩ := h.more hd hpages
      rw [← hall] at hx
      exact .inr (List.ne_nil_of_mem hx)

/-- A page with a token is full, and the token stands for its last key, after which there is
more. -/
theorem accept_more (h : Browsing lister startAfter first l s pages yielded) (hb : l.buffer = [])
    (hd : l.done = false) (hs : s' = { s with listLog := s'.listLog }) {p : Page} {x : Summary}
    {rest : List Summary} (hnext : p.next = some (tokenMark ++ x.key))
    (hlast : p.objects.getLast? = some x)
    (hrest : rest = matching (s.stock lister.bucket) lister.keyPrefix (some x.key))
    (hall : lister.ahead startAfter s pages.flatten = p.objects ++ rest)
    (hlength : p.objects.length = lister.pageBound) (hne : rest ≠ []) :
    Browsing lister startAfter first (l.accept p) s' (pages ++ [p.objects]) yielded := by
  obtain ⟨hbucket, hkeyPrefix, hsize, -⟩ := h.request hd
  have hdone : (l.accept p).done = false := by simp [Listing.accept, hnext, hd]
  have hnot : ¬ (l.accept p).done = true := by simp [hdone]
  obtain ⟨hascending, hfound⟩ := h.append (hall ▸ List.sublist_append_left p.objects rest)
  have hflatten : (pages ++ [p.objects]).flatten = pages.flatten ++ p.objects := by simp
  have hedge : edge startAfter (pages.flatten ++ p.objects) = some x.key :=
    edge_of_frontier (frontier_append hlast)
  have hahead : lister.ahead startAfter s' (pages.flatten ++ p.objects) = rest := by
    rw [Lister.ahead, hedge, hrest, hs]
    rfl
  refine ⟨by rw [hs]; exact h.quiet, ?_, hascending, hfound, fun _ => ?_, ?_, fun _ => ?_,
    fun _ _ => ?_, fun ht => absurd ht hnot⟩
  · rw [hflatten, buffer_accept hb, h.listed, hb, List.append_nil]
  · rw [hflatten]
    refine ⟨?_, ?_, ?_, .inr ⟨tokenMark ++ x.key, x.key, ?_, ?_, ?_, hedge⟩⟩
    all_goals simp [Listing.accept, hnext, hbucket, hkeyPrefix, hsize,
      MemoryObjects.keyOfToken?_tokenMark]
  · intro key body hkey hstarts hafter
    rw [hflatten, hahead]
    rcases h.complete key body hkey hstarts hafter with ⟨y, hy, hk⟩ | ⟨-, y, hy, hk⟩
    · exact .inl ⟨y, List.mem_append_left _ hy, hk⟩
    · rw [hall] at hy
      rcases List.mem_append.1 hy with hy | hy
      · exact .inl ⟨y, List.mem_append_right _ hy, hk⟩
      · exact .inr ⟨hdone, y, hy, hk⟩
  · intro q hq
    rcases List.mem_append.1 hq with hq | hq
    · exact h.full hd q hq
    · rw [List.mem_singleton.1 hq]
      exact hlength
  · rw [hflatten, hahead]
    exact List.exists_mem_of_ne_nil rest hne

/-- A page goes on where those before it have ended, and leaves nothing out. -/
theorem accept (h : Browsing lister startAfter first l s pages yielded) (hb : l.buffer = [])
    (hd : l.done = false) (hs : s' = { s with listLog := s'.listLog }) {p : Page}
    (hp : p = page lister.pageSize (lister.ahead startAfter s pages.flatten)) :
    Browsing lister startAfter first (l.accept p) s' (pages ++ [p.objects]) yielded ∧
      (p.objects = [] → (l.accept p).done = true) := by
  have hlength := lister.length_page (lister.ahead startAfter s pages.flatten)
  rcases page_cases lister.pageSize (s.stock lister.bucket) lister.keyPrefix
    (edge startAfter pages.flatten) with ⟨hnone, hall⟩ | ⟨x, hsome, hlast, hall⟩
  · have hall : p.objects = lister.ahead startAfter s pages.flatten := by rw [hp]; exact hall
    have hnone : p.next = none := by rw [hp]; exact hnone
    rw [← hp] at hlength
    exact ⟨h.accept_last hb hd hs hnone hall hlength.1, fun _ => by simp [Listing.accept, hnone]⟩
  · have hsome : p.next = some (tokenMark ++ x.key) := by rw [hp]; exact hsome
    have hlast : p.objects.getLast? = some x := by rw [hp]; exact hlast
    have hall : lister.ahead startAfter s pages.flatten = p.objects ++
        matching (s.stock lister.bucket) lister.keyPrefix (some x.key) := by rw [hp]; exact hall
    rw [← hp] at hlength
    obtain ⟨hfull, hlt⟩ := hlength.2 (by simp [hsome])
    refine ⟨h.accept_more hb hd hs hsome hlast rfl hall hfull ?_, fun hempty => ?_⟩
    · intro hnil
      rw [hall, hnil, List.append_nil] at hlt
      omega
    · rw [hempty] at hlast
      cases hlast

end Browsing

/-- The listing has nothing to deliver and nothing to ask for. -/
def Drained (l : Listing) : Prop := l.buffer = [] ∧ l.done = true

/-- A listing with an object in its buffer delivers it. -/
theorem next_of_buffer {σ : Type} [ObjectStore σ] {l : Listing} {x : Summary}
    {buffer : List Summary} (hb : l.buffer = x :: buffer) (limit : Nat) (s : σ) :
    l.next (limit + 1) s = (some (.ok x), { l with buffer }, s) := by
  simp [next, step, hb]

/-- A drained listing stays as it is. -/
theorem Drained.next {σ : Type} [ObjectStore σ] {l : Listing} (h : l.Drained) (limit : Nat)
    (s : σ) : l.next limit s = (none, l, s) := by
  cases limit with
  | zero => rfl
  | succ limit => simp [Listing.next, step, h.1, h.2]

section Request

variable {l : Listing} {s s' : MemoryObjects}

/-- With nothing in its buffer, a listing that is not over sends a request. After a page it goes on
with its objects. -/
theorem next_of_page (hb : l.buffer = []) (hd : l.done = false) {p : Page}
    (hl : s.list l.request = (.ok p, s')) (limit : Nat) :
    l.next (limit + 1) (⟨s, []⟩ : Recorded MemoryObjects) =
      (l.accept p).next limit ⟨s', [⟨l.request, .ok p⟩]⟩ := by
  have hl : ObjectStore.list s l.request = (.ok p, s') := hl
  simp [next, step, hb, hd, Recorded.list_eq, hl]

/-- A request that fails is the end of the listing. -/
theorem next_of_failure (hb : l.buffer = []) (hd : l.done = false) {e : StoreError}
    (hl : s.list l.request = (.error e, s')) (limit : Nat) :
    l.next (limit + 1) (⟨s, []⟩ : Recorded MemoryObjects) =
      (some (.error e), { l with done := true }, ⟨s', [⟨l.request, .error e⟩]⟩) := by
  have hl : ObjectStore.list s l.request = (.error e, s') := hl
  simp [next, step, hb, hd, Recorded.list_eq, hl]

end Request

namespace Call

variable {limit : Nat} {c : Call} {r : Option (Except StoreError Summary)} {l : Listing}
variable {s : MemoryObjects} {sent : List Exchange}

/-- A call over the store itself is one over the recorded store. -/
theorem next_eq (h : c.listing.next limit (⟨c.store, []⟩ : Recorded MemoryObjects) =
      (r, l, ⟨s, sent⟩)) :
    c.listing.next limit c.store = (r, l, s) ∧ c.exchanges limit = sent := by
  have hstore := next_store limit c.listing (⟨c.store, []⟩ : Recorded MemoryObjects)
  rw [h] at hstore
  exact ⟨hstore, by rw [exchanges, h]⟩

end Call

namespace Browsing

variable {lister : Lister} {startAfter : Option String} {first : Dict Body} {l : Listing}
variable {s : MemoryObjects} {pages : List (List Summary)} {yielded : List Summary}

/-- What a call does to a listing in progress. -/
structure CallOK (lister : Lister) (startAfter : Option String) (first : Dict Body) (limit : Nat)
    (c : Call) (pages : List (List Summary)) (yielded : List Summary) : Prop where
  browsing : Browsing lister startAfter first (c.listing.next limit c.store).2.1
    (c.listing.next limit c.store).2.2 (pages ++ (c.exchanges limit).map Exchange.objects)
    (yielded ++ (c.object? limit).toList)
  stored : ∀ x ∈ (c.exchanges limit).flatMap Exchange.objects, ∃ body,
    (c.store.stock lister.bucket).get? x.key = some body ∧ x.size = body.size
  drained : c.object? limit = none → (c.listing.next limit c.store).2.1.Drained

/-- A call that sends no request. -/
theorem callOK_of_buffer (h : Browsing lister startAfter first l s pages yielded) {x : Summary}
    {buffer : List Summary} (hb : l.buffer = x :: buffer) (limit : Nat) :
    CallOK lister startAfter first (limit + 1) ⟨l, s⟩ pages yielded := by
  obtain ⟨hnext, hsent⟩ := Call.next_eq (c := ⟨l, s⟩) (next_of_buffer hb limit _)
  have hobject : (⟨l, s⟩ : Call).object? (limit + 1) = some x := by
    simp only [Call.object?, Call.outcome, hnext]
  refine ⟨?_, ?_, ?_⟩
  · rw [hnext, hsent, hobject, List.map_nil, List.append_nil]
    exact h.pop hb
  · simp [hsent]
  · simp [hobject]

theorem callOK_of_drained (h : Browsing lister startAfter first l s pages yielded)
    (hd : l.Drained) (limit : Nat) :
    CallOK lister startAfter first limit ⟨l, s⟩ pages yielded := by
  obtain ⟨hnext, hsent⟩ := Call.next_eq (c := ⟨l, s⟩) (hd.next limit _)
  have hobject : (⟨l, s⟩ : Call).object? limit = none := by
    simp only [Call.object?, Call.outcome, hnext]
  refine ⟨?_, ?_, ?_⟩
  · rw [hnext, hsent, hobject, List.map_nil, List.append_nil, Option.toList_none, List.append_nil]
    exact h
  · simp [hsent]
  · rw [hnext]
    exact fun _ => hd

/-- A call that sends a request, and delivers the first object of the page if there is one. -/
theorem callOK_of_request (h : Browsing lister startAfter first l s pages yielded)
    (hb : l.buffer = []) (hd : l.done = false) (limit : Nat) :
    CallOK lister startAfter first (limit + 2) ⟨l, s⟩ pages yielded := by
  obtain ⟨hbucket, hkeyPrefix, hsize, hstarts⟩ := h.request hd
  let s' : MemoryObjects := { s with listLog := s.listLog ++ [l.request] }
  have hs : s' = { s with listLog := s'.listLog } := rfl
  -- nothing is told to fail
  have hlist : s.list l.request = (s.answer l.request, s') := by
    rcases MemoryObjects.list_cases s l.request with ⟨-, -, hlist⟩ | ⟨hfails, -⟩
    · exact hlist
    · exact absurd hfails (by simp [h.quiet.1, h.quiet.2])
  rcases s.answer_cases hstarts with hanswer | ⟨e, hanswer⟩
  · rw [hbucket, hkeyPrefix, hsize] at hanswer
    obtain ⟨p, hp⟩ : ∃ p, p = page lister.pageSize (lister.ahead startAfter s pages.flatten) :=
      ⟨_, rfl⟩
    have hanswer : s.answer l.request = .ok p := by rw [hanswer, hp]; rfl
    rw [hanswer] at hlist
    have hrun := next_of_page hb hd hlist (limit + 1)
    obtain ⟨haccept, hempty⟩ := h.accept hb hd hs hp
    have hbuffer : (l.accept p).buffer = p.objects := buffer_accept hb p
    have hstored : ∀ x ∈ p.objects, ∃ body,
        (s.stock lister.bucket).get? x.key = some body ∧ x.size = body.size := by
      intro x hx
      rw [hp] at hx
      exact (Lister.mem_ahead (List.mem_of_mem_take hx)).2.2
    cases hobjects : p.objects with
    | nil =>
      have hdrained : (l.accept p).Drained := ⟨hbuffer.trans hobjects, hempty hobjects⟩
      obtain ⟨hnext, hsent⟩ := Call.next_eq (c := ⟨l, s⟩) (hrun.trans (hdrained.next (limit + 1) _))
      have hobject : (⟨l, s⟩ : Call).object? (limit + 2) = none := by
        simp only [Call.object?, Call.outcome, hnext]
      refine ⟨?_, ?_, ?_⟩
      · rw [hnext, hsent, hobject, Option.toList_none, List.append_nil]
        exact haccept
      · rw [hsent]
        simpa [Exchange.objects] using hstored
      · rw [hnext]
        exact fun _ => hdrained
    | cons x buffer =>
      have hbuffer : (l.accept p).buffer = x :: buffer := hbuffer.trans hobjects
      obtain ⟨hnext, hsent⟩ :=
        Call.next_eq (c := ⟨l, s⟩) (hrun.trans (next_of_buffer hbuffer limit _))
      have hobject : (⟨l, s⟩ : Call).object? (limit + 2) = some x := by
        simp only [Call.object?, Call.outcome, hnext]
      refine ⟨?_, ?_, ?_⟩
      · rw [hnext, hsent, hobject]
        exact haccept.pop hbuffer
      · rw [hsent]
        simpa [Exchange.objects] using hstored
      · simp [hobject]
  · rw [hanswer] at hlist
    obtain ⟨hnext, hsent⟩ := Call.next_eq (c := ⟨l, s⟩) (next_of_failure hb hd hlist (limit + 1))
    have hobject : (⟨l, s⟩ : Call).object? (limit + 2) = none := by
      simp only [Call.object?, Call.outcome, hnext]
    refine ⟨?_, ?_, ?_⟩
    · rw [hnext, hsent, hobject, Option.toList_none, List.append_nil]
      exact h.fail hd hs hanswer
    · simp [hsent, Exchange.objects]
    · rw [hnext]
      exact fun _ => ⟨hb, rfl⟩

/-- **A call keeps what is said of a listing in progress**, whatever it does. -/
theorem step (h : Browsing lister startAfter first l s pages yielded) {limit : Nat}
    (hlimit : 2 ≤ limit) : CallOK lister startAfter first limit ⟨l, s⟩ pages yielded := by
  obtain ⟨n, rfl⟩ := Nat.exists_eq_add_of_le' hlimit
  cases hb : l.buffer with
  | cons x buffer => exact h.callOK_of_buffer hb (n + 1)
  | nil =>
    cases hd : l.done with
    | true => exact h.callOK_of_drained ⟨hb, hd⟩ _
    | false => exact h.callOK_of_request hb hd n

/-- **Calls in a row keep what is said of a listing in progress.** If the last one returns nothing
the listing is drained, and if the listing is not then each of them has delivered an object. -/
theorem run (h : Browsing lister startAfter first l s pages yielded) {limit : Nat}
    (hlimit : 2 ≤ limit) (rounds : List (List Arrival)) :
    let cs := calls limit rounds l s
    ∃ l' s', Browsing lister startAfter first l' s'
        (pages ++ (cs.flatMap (Call.exchanges limit)).map Exchange.objects)
        (yielded ++ cs.filterMap (Call.object? limit)) ∧
      (∀ c ∈ cs, ∀ x ∈ (c.exchanges limit).flatMap Exchange.objects,
        ∃ body, (c.store.stock lister.bucket).get? x.key = some body ∧ x.size = body.size) ∧
      (l.Drained → l'.Drained) ∧
      (∀ c, cs.getLast? = some c → c.outcome limit = none → l'.Drained) ∧
      (l'.Drained ∨ (cs.filterMap (Call.object? limit)).length = rounds.length) := by
  induction rounds generalizing l s pages yielded with
  | nil => exact ⟨l, s, by simpa [calls] using h, by simp [calls], id, by simp [calls], .inr rfl⟩
  | cons arrivals rounds ih =>
    intro cs
    let c : Call := ⟨l, s.receive arrivals⟩
    let rest := calls limit rounds (l.next limit c.store).2.1 (l.next limit c.store).2.2
    have hcall : CallOK lister startAfter first limit c pages yielded :=
      (h.receive arrivals).step hlimit
    obtain ⟨l', s', hbrowsing, hstored, hdrained, hend, hall⟩ := ih hcall.browsing
    have hcs : cs = c :: rest := rfl
    have hobjects : cs.filterMap (Call.object? limit) =
        (c.object? limit).toList ++ rest.filterMap (Call.object? limit) := by
      rw [hcs]
      cases hc : c.object? limit <;> simp [hc]
    refine ⟨l', s', ?_, ?_, fun hl => ?_, fun c' hlast hnone => ?_, ?_⟩
    · rw [hobjects, hcs, List.flatMap_cons, List.map_append, ← List.append_assoc,
        ← List.append_assoc]
      exact hbrowsing
    · rw [hcs]
      exact List.forall_mem_cons.2 ⟨hcall.stored, hstored⟩
    · refine hdrained ?_
      rw [hl.next limit c.store]
      exact hl
    · -- the last call is this one or one of the rest
      cases hrest : rest with
      | nil =>
        rw [hcs, hrest] at hlast
        obtain rfl : c = c' := by simpa using hlast
        exact hdrained (hcall.drained (by simp only [Call.object?, hnone]))
      | cons c₁ cs₁ =>
        rw [hcs, hrest, List.getLast?_cons_cons, ← hrest] at hlast
        exact hend c' hlast hnone
    · cases hobject : c.object? limit with
      | none => exact .inl (hdrained (hcall.drained hobject))
      | some x =>
        refine hall.imp id fun hlength => ?_
        rw [hobjects, hobject, Option.toList_some, List.singleton_append, List.length_cons, hlength,
          List.length_cons]

/-- A drained listing has sent as many requests as its objects fill pages, and at least one. -/
theorem length_pages (h : Browsing lister startAfter first l s pages yielded) (hl : l.Drained) :
    pages.length = max 1 ((yielded.length + lister.pageBound - 1) / lister.pageBound) := by
  obtain ⟨front, p, rfl, hfull, hp, hne⟩ := h.last hl.2
  have hpos := lister.pageBound_pos
  have hsum : front.flatten.length = front.length * lister.pageBound := by
    have hlengths : front.map List.length = List.replicate front.length lister.pageBound :=
      List.eq_replicate_iff.2 ⟨by simp, by simpa using hfull⟩
    rw [List.length_flatten, hlengths, List.sum_replicate_nat]
  have hlength : yielded.length = front.length * lister.pageBound + p.length := by
    have hlisted := congrArg List.length h.listed
    rw [hl.1, List.append_nil, List.flatten_append, List.flatten_singleton, List.length_append,
      hsum] at hlisted
    exact hlisted.symm
  rw [List.length_append, List.length_singleton, hlength]
  rcases hne with rfl | hp'
  · -- one page, which may be empty
    have hquot : (p.length + lister.pageBound - 1) / lister.pageBound ≤ 1 :=
      Nat.lt_succ_iff.1 ((Nat.div_lt_iff_lt_mul hpos).2 (by omega))
    simp only [List.length_nil, Nat.zero_mul, Nat.zero_add]
    omega
  · have hp' := List.length_pos_iff.2 hp'
    have hquot : (front.length * lister.pageBound + p.length + lister.pageBound - 1) /
        lister.pageBound = front.length + 1 := by
      refine Nat.div_eq_of_lt_le ?_ ?_
      · rw [Nat.add_mul, Nat.one_mul]
        omega
      · rw [Nat.add_mul, Nat.add_mul, Nat.one_mul]
        omega
    omega

/-- The keys that are delivered are different. -/
theorem nodup (h : Browsing lister startAfter first l s pages yielded) :
    (yielded.map (·.key)).Nodup := by
  have hascending := h.ascending
  rw [h.listed] at hascending
  have hyielded := (List.pairwise_append.1 hascending).1
  exact (List.pairwise_map.2 hyielded).imp String.ne_of_lt

/-- A drained listing has delivered each key that was stored first, exactly once. -/
theorem count_eq_one (h : Browsing lister startAfter first l s pages yielded) (hl : l.Drained)
    {key : String} {body : Body} (hkey : first.get? key = some body)
    (hstarts : startsWith lister.keyPrefix key = true) (hafter : isAfter startAfter key = true) :
    (yielded.map (·.key)).count key = 1 := by
  rcases h.complete key body hkey hstarts hafter with ⟨x, hx, rfl⟩ | ⟨hd, -⟩
  · rw [h.listed, hl.1, List.append_nil] at hx
    exact List.count_eq_one_of_mem h.nodup (List.mem_map_of_mem hx)
  · rw [hl.2] at hd
    cases hd

/-- If only what was stored first has been delivered, it is no more than what matches. -/
theorem length_yielded_le (h : Browsing lister startAfter first l s pages yielded)
    (hfirst : ∀ x ∈ yielded, ∃ body, first.get? x.key = some body) :
    yielded.length ≤ (matching first lister.keyPrefix startAfter).length := by
  have hsub : yielded.map (·.key) ⊆
      (matching first lister.keyPrefix startAfter).map (·.key) := by
    intro key hkey
    obtain ⟨x, hx, rfl⟩ := List.mem_map.1 hkey
    obtain ⟨body, hbody⟩ := hfirst x hx
    have hlisted : x ∈ pages.flatten := by
      rw [h.listed]
      exact List.mem_append_left _ hx
    obtain ⟨hstarts, hafter⟩ := h.found x hlisted
    obtain ⟨y, hy, hyx⟩ := MemoryObjects.exists_mem_matching hbody hstarts hafter
    exact List.mem_map.2 ⟨y, hy, hyx⟩
  have hle := h.nodup.length_le_of_subset hsub
  rwa [List.length_map, List.length_map] at hle

/-- If a drained listing has delivered only what was stored first, then all that matches. -/
theorem length_yielded (h : Browsing lister startAfter first l s pages yielded) (hl : l.Drained)
    (hfirst : ∀ x ∈ yielded, ∃ body, first.get? x.key = some body) :
    yielded.length = (matching first lister.keyPrefix startAfter).length := by
  have hsub : (matching first lister.keyPrefix startAfter).map (·.key) ⊆
      yielded.map (·.key) := by
    intro key hkey
    obtain ⟨x, hx, rfl⟩ := List.mem_map.1 hkey
    obtain ⟨hstarts, hafter, body, hbody, -⟩ := mem_matching hx
    have hcount := h.count_eq_one hl hbody hstarts hafter
    exact List.count_pos_iff.1 (by omega)
  have hsorted := MemoryObjects.pairwise_matching first lister.keyPrefix startAfter
  have hnodup : ((matching first lister.keyPrefix startAfter).map (·.key)).Nodup :=
    (List.pairwise_map.2 hsorted).imp String.ne_of_lt
  have hge := hnodup.length_le_of_subset hsub
  rw [List.length_map, List.length_map] at hge
  exact Nat.le_antisymm (h.length_yielded_le hfirst) hge

end Browsing

/-- What listing requests keep of a store, a call keeps. -/
theorem next_keeps {σ : Type} [ObjectStore σ] {P : σ → Prop}
    (hlist : ∀ s r, P s → P (ObjectStore.list s r).2) (limit : Nat) (l : Listing) {s : σ}
    (h : P s) : P (l.next limit s).2.2 := by
  induction limit generalizing l s with
  | zero => exact h
  | succ limit ih =>
    have hstep := step_keeps hlist l h
    unfold next
    generalize l.step s = out at hstep ⊢
    obtain ⟨outcome, l', s'⟩ := out
    cases outcome with
    | fetched => exact ih l' hstep
    | item | failed | ended => exact hstep

/-- Without arrivals the buckets stay as they are. -/
theorem buckets_calls {l : Listing} {s : MemoryObjects} {c : Call} {limit n : Nat}
    (hc : c ∈ calls limit (List.replicate n []) l s) : c.store.buckets = s.buckets := by
  induction n generalizing l s with
  | zero => simp [calls] at hc
  | succ n ih =>
    rw [List.replicate_succ] at hc
    rcases List.mem_cons.1 hc with rfl | hc
    · rfl
    · have hkept := next_keeps (P := fun s' : MemoryObjects => s'.buckets = s.buckets)
        (fun _ _ h => h) limit l (s := s.receive []) rfl
      exact (ih hc).trans hkept

end Listing

namespace Lister

open Listing (Browsing Call calls)

/-- **The order, the completeness and the cost of a listing** with arrivals between its calls and
without failures. The keys ascend after the start, and those stored when the first request was sent
are delivered just once by the time that a call returns nothing. Without arrivals, as many requests
are sent as the matching objects fill pages, and at least one. -/
theorem browse_complete {limit : Nat} (hlimit : 2 ≤ limit) (lister : Lister)
    (startAfter : Option String) {s : MemoryObjects} (hl : s.listFailures = 0) (hq : s.queued = [])
    (rounds : List (List Arrival)) :
    let cs := calls limit rounds (lister.start startAfter) s
    let listed := (cs.flatMap (Call.exchanges limit)).flatMap Exchange.objects
    let yielded := cs.filterMap (Call.object? limit)
    (yielded.Pairwise fun a b => a.key < b.key) ∧
      (∀ x ∈ yielded, startsWith lister.keyPrefix x.key = true ∧
        isAfter startAfter x.key = true) ∧
      yielded <+: listed ∧ (listed.Pairwise fun a b => a.key < b.key) ∧
      (∀ c ∈ cs, ∀ x ∈ (c.exchanges limit).flatMap Exchange.objects, ∃ body,
        (c.store.stock lister.bucket).get? x.key = some body ∧ x.size = body.size) ∧
      (∀ c₀ c, cs.head? = some c₀ → cs.getLast? = some c → c.outcome limit = none →
        ∀ key body, (c₀.store.stock lister.bucket).get? key = some body →
          startsWith lister.keyPrefix key = true → isAfter startAfter key = true →
          (yielded.map (·.key)).count key = 1) ∧
      ∀ n, rounds = List.replicate n [] →
        let m := (matching (s.stock lister.bucket) lister.keyPrefix startAfter).length
        m < n → (cs.flatMap (Call.exchanges limit)).length =
          max 1 ((m + lister.pageBound - 1) / lister.pageBound) := by
  intro cs listed yielded
  cases rounds with
  | nil => simp [cs, listed, yielded, calls]
  | cons arrivals rounds =>
    -- what is stored when the first request is sent includes the first arrivals
    let s₁ := s.receive arrivals
    obtain ⟨hl₁, hq₁⟩ := s.receive_quiet arrivals
    have hstart := Browsing.start lister startAfter (hl₁.trans hl) (hq₁.trans hq)
    obtain ⟨l', s', h, hstored, -, hend, hall⟩ := hstart.run hlimit ([] :: rounds)
    have hcs : calls limit ([] :: rounds) (lister.start startAfter) s₁ = cs := rfl
    rw [hcs, List.nil_append, List.nil_append] at h
    rw [hcs] at hstored hend hall
    have hinitial : yielded <+: listed := ⟨l'.buffer, h.listed.symm⟩
    refine ⟨h.ascending.sublist hinitial.sublist, fun x hx => h.found x (hinitial.subset hx),
      hinitial, h.ascending, hstored, ?_, ?_⟩
    · rintro c₀ c ⟨⟩ hlast hnone key body hkey hstarts hafter
      exact h.count_eq_one (hend c hlast hnone) hkey hstarts hafter
    · intro n hn m hm
      have harrivals : arrivals = [] :=
        List.eq_of_mem_replicate (hn ▸ List.mem_cons_self (l := rounds))
      subst harrivals
      -- the objects that are listed were stored at the start, since nothing has arrived
      have hfirst : ∀ x ∈ yielded, ∃ body, (s.stock lister.bucket).get? x.key = some body := by
        intro x hx
        obtain ⟨e, he, hx⟩ := List.mem_flatMap.1 (hinitial.subset hx)
        obtain ⟨c, hc, he⟩ := List.mem_flatMap.1 he
        obtain ⟨body, hbody, -⟩ := hstored c hc x (List.mem_flatMap.2 ⟨e, he, hx⟩)
        have hcs' : cs = calls limit (List.replicate n []) (lister.start startAfter) s := by
          rw [← hn]
        rw [hcs'] at hc
        rw [MemoryObjects.stock_congr (Listing.buckets_calls hc)] at hbody
        exact ⟨body, hbody⟩
      have hle : yielded.length ≤ m := h.length_yielded_le hfirst
      have hcalls : ([] :: rounds : List (List Arrival)).length = n := by
        rw [hn, List.length_replicate]
      have hdrained : l'.Drained := hall.resolve_right fun hlength => by
        have hlength : yielded.length = n := hlength.trans hcalls
        omega
      have hpages := h.length_pages hdrained
      rw [List.length_map, h.length_yielded hdrained hfirst] at hpages
      exact hpages

/-- Two objects that match, and one that does not. -/
def sampleShelf : MemoryObjects :=
  ((({} : MemoryObjects).put "shelf" "a/1" [.data [1]]).put "shelf" "a/3" [.data [2, 3]]).put
    "shelf" "b" [.data [4]]

/-- One object arrives before the first call. Then one arrives that comes too late to be listed,
and one that does not. -/
def sampleRounds : List (List Arrival) :=
  [[⟨"shelf", "a/2", [.data [5]]⟩], [⟨"shelf", "a/0", [.data [6]]⟩, ⟨"shelf", "a/4", [.data [7]]⟩],
    [], [], []]

theorem browse_complete_sample :
    let cs := calls 2 sampleRounds (start ⟨"shelf", "a/", 2⟩ none) sampleShelf
    (cs.filterMap (Call.object? 2)).map (·.key) = ["a/1", "a/2", "a/3", "a/4"] ∧
      (cs.flatMap (Call.exchanges 2)).length = 2 ∧
      ((cs.filterMap (Call.object? 2)).map (·.key)).count "a/2" = 1 ∧
      (let quiet := calls 2 (List.replicate 3 []) (start ⟨"shelf", "a/", 2⟩ none) sampleShelf
      (quiet.flatMap (Call.exchanges 2)).length = 1) := by
  have hmain := browse_complete (Nat.le_refl 2) ⟨"shelf", "a/", 2⟩ none (s := sampleShelf) rfl rfl
  refine ⟨by cbv, by cbv, ?_, ?_⟩
  · obtain ⟨-, -, -, -, -, hcomplete, -⟩ := hmain sampleRounds
    exact hcomplete _ _ rfl rfl (by cbv) "a/2" [.data [5]] (by cbv) (by cbv) rfl
  · obtain ⟨-, -, -, -, -, -, hcost⟩ := hmain (List.replicate 3 [])
    exact (hcost 3 rfl (by cbv)).trans (by cbv)

end Lister

end ObjectFeed
