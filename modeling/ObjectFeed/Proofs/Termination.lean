import ObjectFeed.Proofs.Browsing
import ObjectFeed.Proofs.Failures
import ObjectFeed.Proofs.Loans

/-!
# Every pull ends

A pull passes over any number of objects, and begins a listing anew while it does. It ends all the
same: each turn takes away from what is to be listed or from what is in hand, whatever the stores
answer and whenever they fail. A listing goes on after the last key that it has received, so that it
never comes back to an object.

* `ObjectStock`: stores that have a stock of objects and list it page by page, unless they fail.
* `page_edge`: a page and what comes after it.
* `Feed.Ends`: the turns of a pull without a bound, and its outcome.
* `Feed.Onward`: the listing that is open goes on after all that it has received.
* `Feed.Moves`, `Feed.turn_moves`: **what a turn without an outcome does.**
* `Feed.effort`, `Feed.Moves.falls`: a number that each turn lowers.
* `Feed.exists_ends`, `Feed.Ends.pull_eq`: **a pull ends**, and no bound on its turns matters that
  is large enough.
-/

namespace ObjectFeed

open MemoryObjects (matching page tokenMark)

section Edges

/-- What comes after more objects comes after the last one of all. -/
theorem frontier_append_eq_edge (seed found : List Summary) :
    frontier (seed ++ found) = edge (frontier seed) found := by
  rcases List.eq_nil_or_concat found with rfl | ⟨front, x, rfl⟩
  · rw [List.append_nil]
    rfl
  · rw [List.concat_eq_append, ← List.append_assoc, frontier_concat,
      edge_of_frontier (frontier_concat front x)]

theorem edge_cons (after : Option String) (x : Summary) (found : List Summary) :
    edge after (x :: found) = edge (some x.key) found := by
  have hx : frontier [x] = some x.key := rfl
  have hall : frontier (x :: found) = edge (some x.key) found := by
    rw [← List.singleton_append, frontier_append_eq_edge, hx]
  rcases List.eq_nil_or_concat found with rfl | ⟨front, y, rfl⟩
  · rfl
  · rw [List.concat_eq_append] at hall ⊢
    rw [edge_of_frontier (frontier_concat front y)] at hall ⊢
    exact edge_of_frontier hall

/-- **A page and what comes after it** are all that was asked for, and nothing comes after the last
page. -/
theorem page_edge (maxKeys : Nat) (objects : Dict Body) (keyPrefix after : Option String) :
    let p := page maxKeys (matching objects keyPrefix after)
    matching objects keyPrefix after =
        p.objects ++ matching objects keyPrefix (edge after p.objects) ∧
      ((p.next = none ∧ matching objects keyPrefix (edge after p.objects) = []) ∨
        ∃ key, p.next = some (tokenMark ++ key) ∧ edge after p.objects = some key ∧
          p.objects ≠ []) := by
  obtain ⟨seed, rfl⟩ : ∃ seed : List Summary, frontier seed = after := by
    cases after with
    | none => exact ⟨[], rfl⟩
    | some key => exact ⟨[⟨key, 0⟩], rfl⟩
  intro p
  have hsplit := page_split maxKeys objects keyPrefix seed
  simp only [frontier_append_eq_edge] at hsplit
  exact hsplit

end Edges

/-- An object store with a stock that no request changes. A listing is answered with a page of it,
or else it fails; fetches may have any answer. -/
class ObjectStock (σ : Type) [ObjectStore σ] where
  stock : σ → (bucket : String) → Dict Body
  list_cases (s : σ) {r : ListRequest} {after : Option String} (hr : r.StartsAfter after) :
    (∃ s', ObjectStore.list s r =
      (.ok (page r.maxKeys (matching (stock s r.bucket) r.keyPrefix after)), s')) ∨
    ∃ e s', ObjectStore.list s r = (.error e, s')
  stock_list (s : σ) (r : ListRequest) : stock (ObjectStore.list s r).2 = stock s
  stock_fetch (s : σ) (bucket key : String) : stock (ObjectStore.fetch s bucket key).2 = stock s
  stock_release (s : σ) : stock (ObjectStore.release s) = stock s

instance : ObjectStock MemoryObjects where
  stock := MemoryObjects.stock
  list_cases s {r after} hr := by
    rcases MemoryObjects.list_cases s r with ⟨-, -, hlist⟩ | ⟨-, e, hlist⟩
    · have hlist : ObjectStore.list s r = _ := hlist
      rw [hlist]
      rcases MemoryObjects.answer_cases s hr with hanswer | ⟨e, hanswer⟩
      · exact .inl ⟨_, by rw [hanswer]⟩
      · exact .inr ⟨e, _, by rw [hanswer]⟩
    · exact .inr ⟨e, _, hlist⟩
  stock_list s r := MemoryObjects.stock_congr rfl
  stock_fetch s bucket key := MemoryObjects.stock_congr (MemoryObjects.buckets_fetch s bucket key)
  stock_release s := MemoryObjects.stock_congr rfl

/-- A plan of failures keeps of a store what its answers keep. -/
theorem answerByPlan_keeps {σ α β : Type} (view : σ → β) (plan : List (Option StoreError))
    (answer : σ → Except StoreError α × σ) {s : σ} (h : view (answer s).2 = view s) :
    view (answerByPlan plan answer s).2.1 = view s := by
  rcases answerByPlan_cases plan answer s with ⟨e, rest, -, -, -, hanswer⟩ | ⟨-, hanswer⟩
  · rw [hanswer]
  · rw [hanswer]
    exact h

/-- A store that fails by a plan has the stock of the store in memory. -/
instance : ObjectStock PlannedObjects where
  stock s := s.store.stock
  list_cases s {r after} hr := by
    rcases answerByPlan_cases s.listings (ObjectStore.list · r) s.store with
      ⟨e, rest, -, -, -, hanswer⟩ | ⟨-, hanswer⟩
    · refine .inr ⟨e, { s with listings := rest }, ?_⟩
      simp only [ObjectStore.list] at hanswer ⊢
      rw [hanswer]
    · rcases ObjectStock.list_cases s.store hr with ⟨s', hlist⟩ | ⟨e, s', hlist⟩
      · refine .inl ⟨{ s with store := s', listings := s.listings.tail }, ?_⟩
        rw [hlist] at hanswer
        simp only [ObjectStore.list] at hanswer ⊢
        rw [hanswer]
        rfl
      · refine .inr ⟨e, { s with store := s', listings := s.listings.tail }, ?_⟩
        rw [hlist] at hanswer
        simp only [ObjectStore.list] at hanswer ⊢
        rw [hanswer]
  stock_list s r :=
    answerByPlan_keeps ObjectStock.stock s.listings (ObjectStore.list · r)
      (ObjectStock.stock_list s.store r)
  stock_fetch s bucket key :=
    answerByPlan_keeps ObjectStock.stock s.fetches (ObjectStore.fetch · bucket key)
      (ObjectStock.stock_fetch s.store bucket key)
  stock_release s := ObjectStock.stock_release s.store

open ObjectStock (stock)

section Listings

variable {σ : Type} [ObjectStore σ] [ObjectStock σ] {l : Listing} {lister : Lister}
  {after : Option String}

/-- What one step of a listing can do that goes on after all that it has received: deliver the first
object of its buffer, end, receive a page, or fail. -/
theorem Listing.Browses.step_cases (h : l.Browses lister (edge after l.buffer)) (s : σ) :
    (∃ x buffer, l.buffer = x :: buffer ∧ l.step s = (.item x, { l with buffer }, s)) ∨
    (l.buffer = [] ∧ l.done = true ∧ l.step s = (.ended, l, s)) ∨
    (∃ p s', l.buffer = [] ∧ l.done = false ∧ ObjectStore.list s l.request = (.ok p, s') ∧
      p = page l.request.maxKeys (matching (stock s lister.bucket) lister.keyPrefix after) ∧
      l.step s = (.fetched, l.accept p, s')) ∨
    ∃ e l' s', l.buffer = [] ∧ l.done = false ∧ ObjectStore.list s l.request = (.error e, s') ∧
      l.step s = (.failed e, l', s') := by
  unfold step
  cases hb : l.buffer with
  | cons x buffer => exact .inl ⟨x, buffer, rfl, rfl⟩
  | nil =>
    cases hd : l.done with
    | true => exact .inr (.inl ⟨rfl, rfl, rfl⟩)
    | false =>
      rw [hb] at h
      rcases ObjectStock.list_cases s (h.request hd) with ⟨s', hlist⟩ | ⟨e, s', hlist⟩
      · rw [h.bucket, h.keyPrefix] at hlist
        exact .inr (.inr (.inl ⟨_, s', rfl, rfl, hlist, rfl, by simp [hlist]⟩))
      · exact .inr (.inr (.inr ⟨e, { l with buffer := [], done := true }, s', rfl, rfl, hlist,
          by simp [hlist]⟩))

/-- After a page of a stock a listing goes on after all that it has received, and it has an object
to deliver or is over. -/
theorem Listing.Browses.accept_page (h : l.Browses lister (edge after l.buffer))
    (hb : l.buffer = []) (hd : l.done = false) {objects : Dict Body} {p : Page}
    (hp : p = page l.request.maxKeys (matching objects lister.keyPrefix after)) :
    (l.accept p).Browses lister (edge after (l.accept p).buffer) ∧
      ((l.accept p).buffer ≠ [] ∨ (l.accept p).done = true) ∧
      ((l.accept p).done = true → matching objects lister.keyPrefix (edge after p.objects) = []) := by
  have hbuffer := Listing.buffer_accept hb p
  obtain ⟨-, hnext⟩ := page_edge l.request.maxKeys objects lister.keyPrefix after
  rw [← hp] at hnext
  rw [hbuffer]
  rcases hnext with ⟨hnone, hnil⟩ | ⟨key, hsome, hedge, hne⟩
  · exact ⟨h.accept (.inl hnone), .inr (by simp [Listing.accept, hnone]), fun _ => hnil⟩
  · refine ⟨h.accept (.inr ⟨key, hsome, hedge⟩), .inl hne, fun hdone => ?_⟩
    simp [Listing.accept, hsome, hd] at hdone

end Listings

section Streams

variable {σ : Type} [ObjectStore σ] [ObjectStock σ]

theorem RecordStream.stock_giveBack (state : StreamState) (s : σ) :
    stock (giveBack state s) = stock s :=
  giveBack_keeps (P := fun t => stock t = stock s)
    (fun t ht => (ObjectStock.stock_release t).trans ht) state rfl

/-- Reading changes no stock. -/
theorem RecordStream.stock_next (x : RecordStream) (s : σ) : stock (x.next s).2.2 = stock s :=
  next_keeps (P := fun t => stock t = stock s)
    (fun t ht => (ObjectStock.stock_release t).trans ht) x (fun _ => rfl)
    fun _ => ObjectStock.stock_fetch ..

end Streams

namespace Feed

variable {σ τ : Type}

section Turns

variable [ObjectStore σ] [OffsetStore τ]

/-- The turns of a pull up to its outcome, however many. -/
inductive Ends : (listed : Bool) → Feed → World σ τ → List (Moment σ τ) →
    Option (Except Error Delivery) → Feed → World σ τ → Prop
  | outcome {listed : Bool} {f f' : Feed} {w w' : World σ τ} {r : Option (Except Error Delivery)}
      (hturn : f.turn listed w = .outcome r f' w') : Ends listed f w [⟨listed, f, w⟩] r f' w'
  | again {listed listed' : Bool} {f g f' : Feed} {w v w' : World σ τ} {ms : List (Moment σ τ)}
      {r : Option (Except Error Delivery)} (hturn : f.turn listed w = .again listed' g v)
      (hrest : Ends listed' g v ms r f' w') : Ends listed f w (⟨listed, f, w⟩ :: ms) r f' w'

variable {listed : Bool} {f f' : Feed} {w w' : World σ τ} {ms : List (Moment σ τ)}
  {r : Option (Except Error Delivery)}

/-- **A bound on the turns of a pull does not matter** if it is not below their number. -/
theorem Ends.pull_eq (h : Ends listed f w ms r f' w') {limit : Nat} (hlimit : ms.length ≤ limit) :
    f.pull limit listed w = (r, f', w') := by
  induction h generalizing limit with
  | outcome hturn =>
    cases limit with
    | zero => simp at hlimit
    | succ limit => simp only [pull, hturn]
  | again hturn _ ih =>
    cases limit with
    | zero => simp at hlimit
    | succ limit =>
      simp only [pull, hturn]
      exact ih (Nat.le_of_succ_le_succ hlimit)

end Turns

/-- No object is in flight, and none is to be read next. -/
def Free (f : Feed) : Prop := f.current = none ∧ f.pending = none

/-- What the listing that is open has received and not yet delivered. -/
def buffered (f : Feed) : List Summary := f.listing.elim [] (·.buffer)

/-- The listing that is open goes on after all that it has received. -/
def Onward (f : Feed) : Prop :=
  ∀ l, f.listing = some l → l.Browses f.lister (edge f.lastKey l.buffer)

theorem buffered_of_open {f : Feed} {l : Listing} (hl : f.listing = some l) :
    f.buffered = l.buffer := by
  rw [buffered, hl]
  rfl

theorem buffered_of_closed {f : Feed} (hl : f.listing = none) : f.buffered = [] := by
  rw [buffered, hl]
  rfl

variable [ObjectStore σ] [ObjectStock σ]

/-- The objects that are stored after all that a listing has received. -/
def unlisted (f : Feed) (w : World σ τ) : List Summary :=
  matching (stock w.objects f.lister.bucket) f.lister.keyPrefix (edge f.lastKey f.buffered)

/-- How many objects are to be listed or have been received. -/
def left (f : Feed) (w : World σ τ) : Nat := (f.unlisted w).length + f.buffered.length

/-- A number that each turn without an outcome lowers. An object that is to be listed counts for all
the turns that it may take. -/
def effort (f : Feed) (w : World σ τ) (listed : Bool) : Nat :=
  8 * ((f.unlisted w).length + f.buffered.length) + (f.current.elim 0 fun _ => 1) +
    (f.pending.elim 0 fun _ => 2) + (if listed then 0 else 4) + listingLoad f.listing

/-- What a turn without an outcome does: an object is taken up, passed over or given up; or else no
object is in hand, and a listing is begun or moves on. -/
inductive Moves (f : Feed) (w : World σ τ) (listed : Bool) : Bool → Feed → World σ τ → Prop
  | object {g : Feed} {v : World σ τ} (hterm : g.terminated = false) (honward : g.Onward)
      (hfall : (listed = true → f.Free) → g.effort v false < f.effort w listed) :
      Moves f w listed false g v
  | begun (hfree : f.Free) (hl : f.listing = none) (hlisted : listed = false) :
      Moves f w listed true { f with listing := some (f.lister.start f.lastKey) } w
  | rejected {l : Listing} {x : Summary} {buffer : List Summary} (hfree : f.Free)
      (hl : f.listing = some l) (hb : l.buffer = x :: buffer) (hx : f.filter.accepts x = false) :
      Moves f w listed listed
        { f with listing := some { l with buffer }, lastKey := some x.key } w
  | fetched {l : Listing} {p : Page} {objects : σ} (hfree : f.Free) (hl : f.listing = some l)
      (hb : l.buffer = []) (hd : l.done = false)
      (hlist : ObjectStore.list w.objects l.request = (.ok p, objects))
      (hp : p = page l.request.maxKeys
        (matching (stock w.objects f.lister.bucket) f.lister.keyPrefix f.lastKey)) :
      Moves f w listed listed { f with listing := some (l.accept p) } { w with objects }
  | ended {l : Listing} (hfree : f.Free) (hl : f.listing = some l) (hb : l.buffer = [])
      (hd : l.done = true) : Moves f w listed listed { f with listing := none } w

variable {f g : Feed} {w v : World σ τ} {listed listed' : Bool}

omit [ObjectStock σ] [ObjectStore σ] in
/-- Only the listing that is open matters, and the last key that was delivered. -/
theorem Onward.congr (h : f.Onward) (hlister : g.lister = f.lister) (hlisting : g.listing = f.listing)
    (hlastKey : g.lastKey = f.lastKey) : g.Onward := by
  intro l hl
  rw [hlister, hlastKey]
  exact h l (hlisting ▸ hl)

omit [ObjectStock σ] [ObjectStore σ] in
/-- An object that leaves the buffer is the last one that was delivered. -/
theorem Onward.pop (h : f.Onward) {l : Listing} {x : Summary} {buffer : List Summary}
    (hl : f.listing = some l) (hb : l.buffer = x :: buffer) :
    { f with listing := some { l with buffer }, lastKey := some x.key }.Onward := by
  have hbrowses := h l hl
  rw [hb, edge_cons] at hbrowses
  rintro l' ⟨⟩
  exact ⟨hbrowses.bucket, hbrowses.keyPrefix, hbrowses.request⟩

theorem Moves.onward (h : f.Moves w listed listed' g v) (hf : f.Onward) : g.Onward := by
  cases h with
  | object _ honward _ => exact honward
  | begun =>
    rintro l ⟨⟩
    exact ⟨rfl, rfl, fun _ => .inl ⟨rfl, rfl⟩⟩
  | rejected _ hl hb _ => exact hf.pop hl hb
  | fetched _ hl hb hd _ hp =>
    rintro l' ⟨⟩
    exact ((hf _ hl).accept_page hb hd hp).1
  | ended =>
    rintro l ⟨⟩

theorem Moves.not_terminated (h : f.Moves w listed listed' g v) (hf : f.terminated = false) :
    g.terminated = false := by
  cases h with
  | object hterm _ _ => exact hterm
  | begun | rejected | fetched | ended => exact hf

/-- With no object in hand, what is to be listed is what counts. -/
theorem effort_of_free (h : f.Free) (w : World σ τ) (listed : Bool) :
    f.effort w listed = 8 * ((f.unlisted w).length + f.buffered.length) +
      (if listed then 0 else 4) + listingLoad f.listing := by
  obtain ⟨hcurrent, hpending⟩ := h
  unfold effort
  rw [hcurrent, hpending]
  rfl

/-- An object that leaves the buffer makes up for all that may be done with it, and for a listing
that may be begun then. -/
theorem effort_of_buffer (hfree : f.Free) {l : Listing} {x : Summary} {buffer : List Summary}
    (hl : f.listing = some l) (hb : l.buffer = x :: buffer) (w : World σ τ) (listed listed' : Bool) :
    { f with listing := some { l with buffer }, lastKey := some x.key }.effort w listed' + 1 <
      f.effort w listed := by
  have hfree' : Free { f with listing := some { l with buffer }, lastKey := some x.key } := hfree
  have hload := listingLoad_le (some { l with buffer })
  have hbuffered : f.buffered = x :: buffer := (buffered_of_open hl).trans hb
  have hunlisted : { f with listing := some { l with buffer }, lastKey := some x.key }.unlisted w =
      f.unlisted w := by
    unfold unlisted
    rw [hbuffered, edge_cons]
    rfl
  rw [effort_of_free hfree', effort_of_free hfree, hunlisted, hbuffered, List.length_cons]
  -- the object counts for 8, and a listing for 4 at most that may be begun and for 2 that is open
  show 8 * ((f.unlisted w).length + buffer.length) + _ + listingLoad (some { l with buffer }) + 1 < _
  cases listed' <;> simp only [if_true, Bool.false_eq_true, if_false] <;> omega

/-- **Each turn without an outcome lowers the effort.** A pull that has begun a listing has had no
object in hand since. -/
theorem Moves.falls (h : f.Moves w listed listed' g v) (hf : f.Onward)
    (hlisted : listed = true → f.Free) :
    (listed' = true → g.Free) ∧ g.effort v listed' < f.effort w listed := by
  cases h with
  | object _ _ hfall => exact ⟨by simp, hfall hlisted⟩
  | begun hfree hl hnot =>
    have hfree' : Free { f with listing := some (f.lister.start f.lastKey) } := hfree
    refine ⟨fun _ => hfree', ?_⟩
    -- a pull begins one listing, and what there is to do for it is less than beginning it counts
    have hload := listingLoad_le (some (f.lister.start f.lastKey))
    have hbuffered : f.buffered = [] := buffered_of_closed hl
    have hunlisted : { f with listing := some (f.lister.start f.lastKey) }.unlisted w =
        f.unlisted w := by
      unfold unlisted
      rw [hbuffered]
      rfl
    rw [effort_of_free hfree', effort_of_free hfree, hunlisted, hbuffered, hl, hnot]
    show 8 * ((f.unlisted w).length + 0) + 0 + listingLoad (some (f.lister.start f.lastKey)) <
      8 * ((f.unlisted w).length + 0) + 4 + 0
    omega
  | rejected hfree hl hb _ =>
    exact ⟨fun _ => hfree, Nat.lt_of_succ_lt (effort_of_buffer hfree hl hb w listed listed)⟩
  | @fetched l p objects hfree hl hb hd hlist hp =>
    have hfree' : Free { f with listing := some (l.accept p) } := hfree
    refine ⟨fun _ => hfree', ?_⟩
    have hbuffered : f.buffered = [] := (buffered_of_open hl).trans hb
    have hreceived : buffered { f with listing := some (l.accept p) } = p.objects :=
      Listing.buffer_accept hb p
    have hstock : stock objects = stock w.objects := by
      rw [← ObjectStock.stock_list w.objects l.request, hlist]
    -- the objects of the page are no longer to be listed, and they are in the buffer
    have hsplit : f.unlisted w =
        p.objects ++ { f with listing := some (l.accept p) }.unlisted { w with objects } := by
      obtain ⟨hall, -⟩ := page_edge l.request.maxKeys (stock w.objects f.lister.bucket)
        f.lister.keyPrefix f.lastKey
      rw [← hp] at hall
      unfold unlisted
      rw [hbuffered, hreceived, hstock]
      exact hall
    -- so the page must make up for itself: a listing that has objects or is over has less to do
    have hbefore : listingLoad f.listing = 2 := by simp [hl, listingLoad, hb, hd]
    have hafter : listingLoad (some (l.accept p)) = 1 := by
      rcases ((hf l hl).accept_page hb hd hp).2.1 with hne | hdone
      · simp [listingLoad, hne]
      · simp [listingLoad, hdone]
    rw [effort_of_free hfree', effort_of_free hfree, hsplit, hbuffered, hreceived,
      List.length_append, hbefore, hafter, List.length_nil]
    omega
  | @ended l hfree hl hb hd =>
    have hfree' : Free { f with listing := none } := hfree
    refine ⟨fun _ => hfree', ?_⟩
    have hload := listingLoad_pos l
    have hbuffered : f.buffered = [] := (buffered_of_open hl).trans hb
    have hunlisted : { f with listing := none }.unlisted w = f.unlisted w := by
      unfold unlisted
      rw [hbuffered]
      rfl
    rw [effort_of_free hfree', effort_of_free hfree, hunlisted, hbuffered, hl]
    exact Nat.add_lt_add_left hload _

theorem effort_of_current {x : InFlight} (h : f.current = some x) (w : World σ τ) (listed : Bool) :
    f.effort w listed = { f with current := none }.effort w listed + 1 := by
  unfold effort
  rw [h]
  show 8 * ((f.unlisted w).length + f.buffered.length) + 1 + f.pending.elim 0 (fun _ => 2) + _ +
      listingLoad f.listing =
    8 * ((f.unlisted w).length + f.buffered.length) + 0 + f.pending.elim 0 (fun _ => 2) + _ +
      listingLoad f.listing + 1
  omega

theorem effort_of_pending {s : Summary} (h : f.pending = some s) (w : World σ τ) (listed : Bool) :
    f.effort w listed = { f with pending := none }.effort w listed + 2 := by
  unfold effort
  rw [h]
  show 8 * ((f.unlisted w).length + f.buffered.length) + f.current.elim 0 (fun _ => 1) + 2 + _ +
      listingLoad f.listing =
    8 * ((f.unlisted w).length + f.buffered.length) + f.current.elim 0 (fun _ => 1) + 0 + _ +
      listingLoad f.listing + 2
  omega

theorem effort_congr (hstock : stock v.objects = stock w.objects) (listed : Bool) :
    f.effort v listed = f.effort w listed := by
  unfold effort unlisted
  rw [hstock]

theorem length_matching_le (objects : Dict Body) (keyPrefix after : Option String) :
    (matching objects keyPrefix after).length ≤ objects.members.length := by
  unfold MemoryObjects.matching
  rw [List.length_map]
  exact List.length_filter_le ..

/-- The effort of a call is bounded by the objects that are to be listed or have been received. -/
theorem effort_le_left (f : Feed) (w : World σ τ) : f.effort w false ≤ 8 * f.left w + 9 := by
  have hload := listingLoad_le f.listing
  have hcurrent : (f.current.elim 0 fun _ => 1) ≤ 1 := by cases f.current <;> simp
  have hpending : (f.pending.elim 0 fun _ => 2) ≤ 2 := by cases f.pending <;> simp
  unfold effort left
  rw [if_neg Bool.false_ne_true]
  omega

theorem left_le (f : Feed) (w : World σ τ) :
    f.left w ≤ (stock w.objects f.lister.bucket).members.length + f.buffered.length :=
  Nat.add_le_add_right (length_matching_le ..) _

/-- The effort of a call is bounded by the objects that are stored or have been received. -/
theorem effort_le (f : Feed) (w : World σ τ) : f.effort w false ≤
    8 * ((stock w.objects f.lister.bucket).members.length + f.buffered.length) + 9 := by
  have heffort := effort_le_left f w
  have hleft := left_le f w
  omega

section Turns

variable [OffsetStore τ]

omit [ObjectStore σ] [ObjectStock σ] [OffsetStore τ] in
theorem onward_afterStoreError (h : f.Onward) (s : Summary) (e : StoreError) :
    (f.afterStoreError s e).Onward := by
  unfold afterStoreError
  split <;> exact h.congr rfl rfl rfl

/-- Taking up an object, or passing over it. -/
theorem take_moves (h : f.Onward) (hterm : f.terminated = false) (hcurrent : f.current = none)
    (s : Summary) (w : World σ τ) :
    (f.take s w).Leads
      (fun listed g v => listed = false ∧ g.terminated = false ∧ g.Onward ∧
        g.effort v false ≤ f.effort w false + 1)
      (fun r g _ => g.Onward ∧ r ≠ none) := by
  refine take_leads (fun _ => ⟨rfl, hterm, h, Nat.le_succ _⟩) ?_ ?_ ?_
  · intro k o cache offsets _ _
    refine ⟨rfl, hterm, h.congr rfl rfl rfl, ?_⟩
    have hfree : { f with current := none } = f := by rw [← hcurrent]
    rw [effort_of_current rfl, effort_congr (w := w) rfl]
    show { f with current := none }.effort w false + 1 ≤ _
    rw [hfree]
  · intro k e cache offsets _ _
    exact ⟨onward_afterStoreError h s e, nofun⟩
  · intro k e cache offsets _ _
    exact ⟨h.congr rfl rfl rfl, nofun⟩

omit [OffsetStore τ] in
/-- The stream of the object in flight is moved on. -/
theorem advance_moves (h : f.Onward) (hterm : f.terminated = false) {x : InFlight}
    (hx : f.current = some x) (w : World σ τ) :
    (f.advance x w).Leads (f.Moves w listed) (fun r g _ => g.Onward ∧ r ≠ none) := by
  have hkept : stock (x.stream.next w.objects).2.2 = stock w.objects := x.stream.stock_next w.objects
  -- the object is given up, and with it the pull begins to look for another one
  have hgiven : ∀ {filter : TaskFilter} {v : World σ τ}, stock v.objects = stock w.objects →
      f.Moves w listed false { f with current := none, filter } v := by
    intro filter v hstock
    refine .object hterm (h.congr rfl rfl rfl) fun hfree => ?_
    have hlisted : listed = false := by
      rw [← Bool.not_eq_true]
      intro htrue
      cases hx.symm.trans (hfree htrue).1
    rw [hlisted, effort_of_current hx, effort_congr hstock]
    exact Nat.lt_succ_self _
  refine advance_leads (fun r stream objects _ => ⟨h.congr rfl rfl rfl, nofun⟩) ?_ ?_
  · intro e stream objects hnext
    rw [hnext] at hkept
    have hback : stock (RecordStream.giveBack stream.state objects) = stock w.objects :=
      (RecordStream.stock_giveBack stream.state objects).trans hkept
    refine afterStreamError_leads (fun e' _ => ⟨?_, nofun⟩)
      (fun _ _ => ⟨h.congr rfl rfl rfl, nofun⟩) fun _ _ => hgiven hback
    exact onward_afterStoreError (f := { f with current := none }) (h.congr rfl rfl rfl) x.summary e'
  · intro stream objects hnext
    rw [hnext] at hkept
    exact @hgiven f.filter _ hkept

/-- **What a turn does.** Without an outcome it is one of the moves. Nothing is returned by a feed
that has ended, and else only when a listing has been begun that has ended since. -/
theorem turn_moves (h : f.Onward) (listed : Bool) (w : World σ τ) :
    (f.turn listed w).Leads (f.Moves w listed) fun r g v => g.Onward ∧
      (r = none → f.terminated = false →
        listed = true ∧ f.Free ∧ f.listing = none ∧ g = f ∧ v = w) := by
  have hnothing : ∀ {r : Option (Except Error Delivery)} {g : Feed} {v : World σ τ},
      g.Onward ∧ r ≠ none → g.Onward ∧ (r = none → f.terminated = false →
        listed = true ∧ f.Free ∧ f.listing = none ∧ g = f ∧ v = w) :=
    fun ⟨honward, hne⟩ => ⟨honward, fun hr => absurd hr hne⟩
  refine turn_leads ?_ ?_ ?_ ?_ ?_ ?_
  · intro hterm
    refine ⟨h, fun _ hnot => ?_⟩
    rw [hterm] at hnot
    cases hnot
  · intro x hterm hx
    exact (advance_moves h hterm hx w).mono (fun _ _ _ hmoves => hmoves) fun _ _ _ => hnothing
  · intro s hterm hx hp
    have honward : { f with pending := none }.Onward := h.congr rfl rfl rfl
    refine (take_moves honward hterm hx s w).mono ?_ fun _ _ _ => hnothing
    rintro _ g v ⟨rfl, hg, hgo, hle⟩
    refine .object hg hgo fun hfree => ?_
    have hlisted : listed = false := by
      rw [← Bool.not_eq_true]
      intro htrue
      cases hp.symm.trans (hfree htrue).2
    rw [hlisted, effort_of_pending hp]
    omega
  · intro l hterm hx hp hl
    have hfree : f.Free := ⟨hx, hp⟩
    -- the listing is moved on, and only an object that is accepted is taken up
    rcases (h l hl).step_cases w.objects with ⟨x, buffer, hb, hstep⟩ | ⟨hb, hd, hstep⟩ |
      ⟨p, objects, hb, hd, hlist, hpage, hstep⟩ | ⟨e, l', objects, hb, hd, -, hstep⟩
    · unfold search
      simp only [hstep]
      by_cases hx' : f.filter.accepts x = true
      · rw [if_pos hx']
        refine (take_moves (h.pop hl hb) hterm hx x w).mono ?_ fun _ _ _ => hnothing
        rintro _ g v ⟨rfl, hg, hgo, hle⟩
        refine .object hg hgo fun _ => ?_
        exact Nat.lt_of_le_of_lt hle (effort_of_buffer hfree hl hb w listed false)
      · rw [if_neg hx']
        exact .rejected hfree hl hb (Bool.eq_false_iff.2 hx')
    · unfold search
      simp only [hstep]
      exact .ended hfree hl hb hd
    · unfold search
      simp only [hstep]
      exact .fetched hfree hl hb hd hlist hpage
    · unfold search
      simp only [hstep]
      exact ⟨nofun, nofun⟩
  · intro hterm hx hp hl hlisted
    exact ⟨h, fun _ _ => ⟨hlisted, ⟨hx, hp⟩, hl, rfl, rfl⟩⟩
  · intro hterm hx hp hl hlisted
    exact .begun ⟨hx, hp⟩ hl hlisted

/-- **A pull ends** within as many turns as the effort says. By induction on the effort, which each
turn lowers. -/
theorem exists_ends (h : f.Onward) (hlisted : listed = true → f.Free) (w : World σ τ) :
    ∃ ms r f' w', Ends listed f w ms r f' w' ∧ ms.length ≤ f.effort w listed + 1 := by
  obtain ⟨n, hn⟩ : ∃ n, n = f.effort w listed := ⟨_, rfl⟩
  induction n using Nat.strong_induction_on generalizing listed f w with
  | _ n ih =>
    have hturn := turn_moves h listed w
    cases hnext : f.turn listed w with
    | outcome r f' w' => exact ⟨_, r, f', w', .outcome hnext, Nat.le_add_left _ _⟩
    | again listed' g v =>
      rw [hnext] at hturn
      have hmoves : f.Moves w listed listed' g v := hturn
      obtain ⟨hfree, hfall⟩ := hmoves.falls h hlisted
      obtain ⟨ms, r, f', w', hends, hlength⟩ :=
        ih (g.effort v listed') (hn ▸ hfall) (hmoves.onward h) hfree v rfl
      refine ⟨_, r, f', w', .again hnext hends, ?_⟩
      rw [List.length_cons]
      omega

/-- Acts keep the listing that is open going on. -/
theorem onward_path {f' : Feed} {w' : World σ τ} {ms : List (Moment σ τ)} (hpath : Path f w ms f' w')
    (h : f.Onward) : f'.Onward := by
  refine (hpath.keeps (I := fun g _ => g.Onward) (fun g listed v hg => ?_)
    (fun _ _ _ hg => hg.congr rfl rfl rfl) (fun g v hg => ?_) h).1
  · exact (turn_moves hg listed v).mono (fun _ _ _ hmoves => hmoves.onward hg) fun _ _ _ hr => hr.1
  · rcases close_cases g v with ⟨-, hclose⟩ | ⟨x, -, hclose⟩
    · rw [hclose]
      exact hg
    · rw [hclose]
      exact hg.congr rfl rfl rfl

/-- **A listing that is open goes on after all that it has received**, whatever is asked of the feed
and whatever becomes of the stores in between. -/
theorem onward_steps {limit : Feed → World σ τ → Nat} (h : f.Onward) (ss : List (Step σ τ))
    (w : World σ τ) : (steps limit ss f w).1.Onward := by
  induction ss generalizing f w with
  | nil => exact h
  | cons s ss ih =>
    cases s with
    | ask a => exact ih (onward_path (act_path limit a f w) h) _
    | change g => exact ih h (g w)

theorem onward_start {d : Directories} {c : FeedConfig} {failed : KeySet}
    (h : start d c failed = .ok f) : f.Onward := by
  rintro l hl
  rw [(fresh_start h).listing] at hl
  cases hl

end Turns

end Feed

end ObjectFeed
