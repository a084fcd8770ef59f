import ObjectFeed.Proofs.Relisting
import ObjectFeed.Proofs.Snapshots

/-!
# The object in hand

At most one object is in hand: it is being read, or it is the next one to be read. All that a feed
does goes back to this object and to the last key that was listed, and the rest of the listing comes
after them. Turns, releases and whatever happens to the stores in between keep it that way.

* `Feed.InHand`: the object that is being read or that is the next one.
* `Feed.Orderly`: **what is in hand and what has been listed are in order.**
* `Feed.Succeeds`, `Feed.succeeds_turn`: what a turn makes of an orderly feed; `Feed.succeeds_path`
  and `Feed.orderly_steps` say the same of acts and of runs.
* `Feed.UnderWay`: the object that is being read has delivered the last record.
* `Feed.Ends.underWay`, `Feed.underWay_steps`: that is so after each pull and after each act.
* `Feed.one_in_hand`: **the state of a feed between calls.**
-/

namespace ObjectFeed

open MemoryObjects (isAfter matching page pairwise_matching mem_matching)

/-- The objects of a page come in key order, after all that came before. -/
theorem MemoryObjects.page_ascending (maxKeys : Nat) (objects : Dict Body)
    (keyPrefix after : Option String) :
    let p := page maxKeys (matching objects keyPrefix after)
    (p.objects.Pairwise fun s t => s.key < t.key) ∧
      ∀ s ∈ p.objects, isAfter after s.key = true := by
  intro p
  refine ⟨(pairwise_matching objects keyPrefix after).sublist (List.take_sublist _ _), ?_⟩
  intro s hs
  have hmem : s ∈ matching objects keyPrefix after := List.mem_of_mem_take hs
  exact (mem_matching hmem).2.1

namespace Feed

variable {σ τ : Type}

/-- The object is being read, or it is the next one to be read. -/
def InHand (f : Feed) (s : Summary) : Prop :=
  (∃ x, f.current = some x ∧ x.summary = s) ∨ f.pending = some s

/-- What is in hand and what has been listed are in order. -/
structure Orderly (f : Feed) : Prop where
  onward : f.Onward
  single : f.current = none ∨ f.pending = none
  hand : ∀ s, f.InHand s → f.lastKey = some s.key ∧ f.filter.accepts s = true
  ascending : f.buffered.Pairwise fun s t => s.key < t.key
  later : ∀ s ∈ f.buffered, isAfter f.lastKey s.key = true
  ended : f.terminated = true → f.Free

variable {f g : Feed} {s : Summary}

theorem Free.not_inHand (h : f.Free) : ¬ f.InHand s := by
  rintro (⟨x, hx, -⟩ | hp)
  · rw [h.1] at hx
    cases hx
  · rw [h.2] at hp
    cases hp

/-- With nothing in hand only the listing matters. -/
theorem Orderly.free (h : f.Orderly) (hlister : g.lister = f.lister)
    (hlisting : g.listing = f.listing) (hkey : g.lastKey = f.lastKey) (hfree : g.Free) :
    g.Orderly := by
  have hbuffered : g.buffered = f.buffered := by rw [buffered, buffered, hlisting]
  refine ⟨h.onward.congr hlister hlisting hkey, .inl hfree.1, ?_, ?_, ?_, fun _ => hfree⟩
  · intro s hs
    exact (hfree.not_inHand hs).elim
  · rw [hbuffered]
    exact h.ascending
  · rw [hbuffered, hkey]
    exact h.later

/-- An object that was accepted when it was listed last is taken in hand. -/
theorem Orderly.hold (h : f.Orderly) (hlister : g.lister = f.lister)
    (hlisting : g.listing = f.listing) (hkey : g.lastKey = f.lastKey)
    (hterm : g.terminated = false) (hsingle : g.current = none ∨ g.pending = none)
    (hhand : ∀ t, g.InHand t → t = s) (hs : f.lastKey = some s.key)
    (hacc : g.filter.accepts s = true) : g.Orderly := by
  have hbuffered : g.buffered = f.buffered := by rw [buffered, buffered, hlisting]
  refine ⟨h.onward.congr hlister hlisting hkey, hsingle, ?_, ?_, ?_, ?_⟩
  · intro t ht
    rw [hhand t ht]
    exact ⟨hkey.trans hs, hacc⟩
  · rw [hbuffered]
    exact h.ascending
  · rw [hbuffered, hkey]
    exact h.later
  · intro htrue
    rw [hterm] at htrue
    cases htrue

/-- The feed has listed as far as the other one, or further. -/
def Precedes (f g : Feed) : Prop :=
  ∀ k, f.lastKey = some k → ∃ k', g.lastKey = some k' ∧ k ≤ k'

theorem Precedes.of_eq (h : g.lastKey = f.lastKey) : f.Precedes g := by
  intro k hk
  exact ⟨k, h.trans hk, String.le_refl k⟩

theorem Precedes.trans {f' : Feed} (h : f.Precedes g) (h' : g.Precedes f') : f.Precedes f' := by
  intro k hk
  obtain ⟨k₁, hk₁, hle⟩ := h k hk
  obtain ⟨k₂, hk₂, hle'⟩ := h' k₁ hk₁
  exact ⟨k₂, hk₂, String.le_trans hle hle'⟩

section Turns

variable [ObjectStore σ] [ObjectStock σ] {w v : World σ τ}

/-- What becomes of an orderly feed while its stores are left alone: it is orderly again, it has
listed as far as before or further, and there is no more to do for it. -/
structure Succeeds (f : Feed) (w : World σ τ) (g : Feed) (v : World σ τ) : Prop where
  orderly : g.Orderly
  key : f.Precedes g
  left : g.left v ≤ f.left w

theorem Succeeds.refl (h : f.Orderly) : f.Succeeds w f w := ⟨h, .of_eq rfl, Nat.le_refl _⟩

theorem Succeeds.trans {f' : Feed} {v' : World σ τ} (h : f.Succeeds w g v)
    (h' : g.Succeeds v f' v') : f.Succeeds w f' v' :=
  ⟨h'.orderly, h.key.trans h'.key, Nat.le_trans h'.left h.left⟩

theorem left_congr (hlister : g.lister = f.lister) (hlisting : g.listing = f.listing)
    (hkey : g.lastKey = f.lastKey)
    (hstock : ObjectStock.stock v.objects = ObjectStock.stock w.objects) : g.left v = f.left w := by
  have hbuffered : g.buffered = f.buffered := by rw [buffered, buffered, hlisting]
  unfold left unlisted
  rw [hlister, hkey, hbuffered, hstock]

/-- The listing stays as it is. -/
theorem Succeeds.of_eq (h : g.Orderly) (hlister : g.lister = f.lister)
    (hlisting : g.listing = f.listing) (hkey : g.lastKey = f.lastKey)
    (hstock : ObjectStock.stock v.objects = ObjectStock.stock w.objects) : f.Succeeds w g v :=
  ⟨h, .of_eq hkey, Nat.le_of_eq (left_congr hlister hlisting hkey hstock)⟩

/-- **An object that leaves the buffer** is the last one that was listed, and the others come after
it. -/
theorem succeeds_pop (h : f.Orderly) (hfree : f.Free) {l : Listing} {buffer : List Summary}
    (hl : f.listing = some l) (hb : l.buffer = s :: buffer) (w : World σ τ) :
    f.Succeeds w { f with listing := some { l with buffer }, lastKey := some s.key } w := by
  have hbuffered : f.buffered = s :: buffer := (buffered_of_open hl).trans hb
  have hascending := h.ascending
  rw [hbuffered] at hascending
  obtain ⟨hfirst, hrest⟩ := List.pairwise_cons.1 hascending
  have hlater : isAfter f.lastKey s.key = true := by
    refine h.later s ?_
    rw [hbuffered]
    exact List.mem_cons_self
  have hfree' : Free { f with listing := some { l with buffer }, lastKey := some s.key } := hfree
  refine ⟨⟨h.onward.pop hl hb, .inl hfree.1, ?_, hrest, ?_, fun _ => hfree'⟩, ?_, ?_⟩
  · intro t ht
    exact (hfree'.not_inHand ht).elim
  · intro t ht
    exact decide_eq_true (hfirst t ht)
  · intro k hk
    rw [hk] at hlater
    exact ⟨s.key, rfl, String.not_lt.1 (String.lt_asymm (of_decide_eq_true hlater))⟩
  · have hunlisted :
        unlisted { f with listing := some { l with buffer }, lastKey := some s.key } w =
          f.unlisted w := by
      unfold unlisted
      rw [hbuffered, edge_cons]
      rfl
    unfold left
    rw [hunlisted, hbuffered, List.length_cons]
    show _ + buffer.length ≤ _
    omega

/-- **A page is received** when all that came before has been delivered. -/
theorem succeeds_page (h : f.Orderly) (hfree : f.Free) {l : Listing} {p : Page} {objects : σ}
    (hl : f.listing = some l) (hb : l.buffer = []) (hd : l.done = false)
    (hlist : ObjectStore.list w.objects l.request = (.ok p, objects))
    (hp : p = page l.request.maxKeys
      (matching (ObjectStock.stock w.objects f.lister.bucket) f.lister.keyPrefix f.lastKey)) :
    f.Succeeds w { f with listing := some (l.accept p) } { w with objects } := by
  have hbuffered : f.buffered = [] := (buffered_of_open hl).trans hb
  have hreceived : buffered { f with listing := some (l.accept p) } = p.objects :=
    Listing.buffer_accept hb p
  obtain ⟨hascending, hlater⟩ := MemoryObjects.page_ascending l.request.maxKeys
    (ObjectStock.stock w.objects f.lister.bucket) f.lister.keyPrefix f.lastKey
  rw [← hp] at hascending hlater
  have hfree' : Free { f with listing := some (l.accept p) } := hfree
  refine ⟨⟨?_, .inl hfree.1, ?_, ?_, ?_, fun _ => hfree'⟩, .of_eq rfl, ?_⟩
  · rintro l' ⟨⟩
    exact ((h.onward l hl).accept_page hb hd hp).1
  · intro t ht
    exact (hfree'.not_inHand ht).elim
  · rw [hreceived]
    exact hascending
  · rw [hreceived]
    exact hlater
  · -- what was to be listed is in the buffer now, or is still to be listed
    have hstock : ObjectStock.stock objects = ObjectStock.stock w.objects := by
      rw [← ObjectStock.stock_list w.objects l.request, hlist]
    obtain ⟨hall, -⟩ := page_edge l.request.maxKeys (ObjectStock.stock w.objects f.lister.bucket)
      f.lister.keyPrefix f.lastKey
    rw [← hp] at hall
    have hsplit : f.unlisted w =
        p.objects ++ unlisted { f with listing := some (l.accept p) } { w with objects } := by
      unfold unlisted
      rw [hbuffered, hreceived, hstock]
      exact hall
    unfold left
    rw [hsplit, hbuffered, hreceived, List.length_append, List.length_nil]
    omega

/-- **A listing that has delivered all is given up.** -/
theorem succeeds_listed (hfree : f.Free) (hb : f.buffered = [])
    (hstock : ObjectStock.stock v.objects = ObjectStock.stock w.objects) :
    f.Succeeds w { f with listing := none } v := by
  have hfree' : Free { f with listing := none } := hfree
  refine ⟨⟨by rintro l ⟨⟩, .inl hfree.1, ?_, .nil, by rintro t ⟨⟩, fun _ => hfree'⟩, .of_eq rfl, ?_⟩
  · intro t ht
    exact (hfree'.not_inHand ht).elim
  · have hnone : buffered { f with listing := none } = [] := rfl
    unfold left unlisted
    rw [hnone, hb, hstock]

/-- **A listing is begun** after the last key of the one before. -/
theorem succeeds_begun (hfree : f.Free) (hl : f.listing = none) (w : World σ τ) :
    f.Succeeds w { f with listing := some (f.lister.start f.lastKey) } w := by
  have hfree' : Free { f with listing := some (f.lister.start f.lastKey) } := hfree
  refine ⟨⟨?_, .inl hfree.1, ?_, .nil, by rintro t ⟨⟩, fun _ => hfree'⟩, .of_eq rfl, ?_⟩
  · rintro l ⟨⟩
    exact ⟨rfl, rfl, fun _ => .inl ⟨rfl, rfl⟩⟩
  · intro t ht
    exact (hfree'.not_inHand ht).elim
  · have hnone : f.buffered = [] := buffered_of_closed hl
    have hnew : buffered { f with listing := some (f.lister.start f.lastKey) } = [] := rfl
    unfold left unlisted
    rw [hnone, hnew]

/-- An object that stands back after a failure stays in hand. -/
theorem succeeds_afterStoreError (h : f.Orderly) (hterm : f.terminated = false) (hfree : f.Free)
    (hs : f.lastKey = some s.key) (hacc : f.filter.accepts s = true) (e : StoreError)
    (hstock : ObjectStock.stock v.objects = ObjectStock.stock w.objects) :
    f.Succeeds w (f.afterStoreError s e) v := by
  unfold afterStoreError
  by_cases he : e.isTransient = true
  · rw [if_pos he]
    have hheld : Orderly { f with pending := some s } := by
      refine h.hold rfl rfl rfl hterm (.inl hfree.1) ?_ hs hacc
      rintro t (⟨x, hx, -⟩ | hp)
      · cases hfree.1.symm.trans hx
      · exact (Option.some.inj hp).symm
    exact .of_eq hheld rfl rfl rfl hstock
  · rw [if_neg he]
    exact .of_eq h rfl rfl rfl hstock

variable [OffsetStore τ]

/-- **Taking up the object that was listed last.** -/
theorem succeeds_take (h : f.Orderly) (hterm : f.terminated = false) (hfree : f.Free)
    (hs : f.lastKey = some s.key) (hacc : f.filter.accepts s = true) (w : World σ τ) :
    (f.take s w).Keeps (f.Succeeds w) := by
  refine take_leads (fun _ => .refl h) ?_ ?_ ?_
  · intro k o cache offsets _ _
    have hheld : Orderly { f with
        current := some ⟨s, RecordStream.start f.settings f.lister.bucket s.key o⟩ } := by
      refine h.hold rfl rfl rfl hterm (.inr hfree.2) ?_ hs hacc
      rintro t (⟨x, hx, rfl⟩ | hp)
      · rw [← Option.some.inj hx]
      · cases hfree.2.symm.trans hp
    exact .of_eq hheld rfl rfl rfl rfl
  · intro k e cache offsets _ _
    exact succeeds_afterStoreError h hterm hfree hs hacc e rfl
  · intro k e cache offsets _ _
    exact .of_eq (h.free rfl rfl rfl hfree) rfl rfl rfl rfl

omit [OffsetStore τ] in
/-- **Reading on.** An object that is given up is in hand no longer, unless it stands back. -/
theorem succeeds_advance (h : f.Orderly) (hterm : f.terminated = false) {x : InFlight}
    (hx : f.current = some x) (w : World σ τ) : (f.advance x w).Keeps (f.Succeeds w) := by
  have hpending : f.pending = none := by
    refine h.single.resolve_left ?_
    rw [hx]
    exact Option.some_ne_none x
  obtain ⟨hkey, hacc⟩ := h.hand x.summary (.inl ⟨x, hx, rfl⟩)
  have hstock : ObjectStock.stock (x.stream.next w.objects).2.2 = ObjectStock.stock w.objects :=
    x.stream.stock_next w.objects
  -- the feed that has let go of the object
  have hfree : Free { f with current := none } := ⟨rfl, hpending⟩
  have hgiven : Orderly { f with current := none } := h.free rfl rfl rfl hfree
  refine advance_leads ?_ ?_ ?_
  · intro r stream objects hnext
    rw [hnext] at hstock
    have hheld : Orderly { f with current := some { x with stream } } := by
      refine h.hold rfl rfl rfl hterm (.inr hpending) ?_ hkey hacc
      rintro t (⟨y, hy, rfl⟩ | hp)
      · rw [← Option.some.inj hy]
      · cases hpending.symm.trans hp
    exact .of_eq hheld rfl rfl rfl hstock
  · intro e stream objects hnext
    rw [hnext] at hstock
    have hback : ObjectStock.stock (RecordStream.giveBack stream.state objects) =
        ObjectStock.stock w.objects :=
      (RecordStream.stock_giveBack stream.state objects).trans hstock
    refine afterStreamError_leads ?_ ?_ ?_
    · intro e' _
      let w' : World σ τ := { w with objects := RecordStream.giveBack stream.state objects }
      have hstock' : ObjectStock.stock w'.objects = ObjectStock.stock w.objects := hback
      have hstands := succeeds_afterStoreError hgiven hterm hfree hkey hacc e' hstock'
      exact ⟨hstands.orderly, hstands.key, hstands.left⟩
    · intro _ _
      exact .of_eq (h.free rfl rfl rfl hfree) rfl rfl rfl hback
    · intro _ _
      exact .of_eq (h.free rfl rfl rfl hfree) rfl rfl rfl hback
  · intro stream objects hnext
    rw [hnext] at hstock
    exact .of_eq hgiven rfl rfl rfl hstock

/-- **Moving the listing on.** An object that is accepted is taken up at once. -/
theorem succeeds_search (h : f.Orderly) (hterm : f.terminated = false) (hfree : f.Free)
    {l : Listing} (hl : f.listing = some l) (listed : Bool) (w : World σ τ) :
    (f.search l listed w).Keeps (f.Succeeds w) := by
  have hempty : l.buffer = [] → f.buffered = [] := (buffered_of_open hl).trans
  unfold search
  rcases (h.onward l hl).step_cases w.objects with ⟨s, buffer, hb, hstep⟩ | ⟨hb, -, hstep⟩ |
    ⟨p, objects, hb, hd, hlist, hp, hstep⟩ | ⟨e, l', objects, hb, -, hlist, hstep⟩
  · simp only [hstep]
    have hpop := succeeds_pop h hfree hl hb w
    by_cases hacc : f.filter.accepts s = true
    · rw [if_pos hacc]
      exact (succeeds_take hpop.orderly hterm hfree rfl hacc w).mono
        (fun _ _ _ hg => hpop.trans hg) fun _ _ _ hg => hpop.trans hg
    · rw [if_neg hacc]
      exact hpop
  · simp only [hstep]
    exact succeeds_listed hfree (hempty hb) rfl
  · simp only [hstep]
    exact succeeds_page h hfree hl hb hd hlist hp
  · simp only [hstep]
    have hstock : ObjectStock.stock objects = ObjectStock.stock w.objects := by
      rw [← ObjectStock.stock_list w.objects l.request, hlist]
    exact succeeds_listed (v := { w with objects }) hfree (hempty hb) hstock

/-- **What a turn makes of an orderly feed**, with an outcome or without one. -/
theorem succeeds_turn (h : f.Orderly) (listed : Bool) (w : World σ τ) :
    (f.turn listed w).Keeps (f.Succeeds w) := by
  refine turn_leads (fun _ => .refl h) ?_ ?_ ?_ (fun _ _ _ _ _ => .refl h) ?_
  · intro x hterm hx
    exact succeeds_advance h hterm hx w
  · intro s hterm hx hp
    -- the object is taken from where it stood back
    obtain ⟨hkey, hacc⟩ := h.hand s (.inr hp)
    have hfree : Free { f with pending := none } := ⟨hx, rfl⟩
    have hgiven : Orderly { f with pending := none } := h.free rfl rfl rfl hfree
    have hbefore : f.Succeeds w { f with pending := none } w := .of_eq hgiven rfl rfl rfl rfl
    exact (succeeds_take hgiven hterm hfree hkey hacc w).mono (fun _ _ _ hg => hbefore.trans hg)
      fun _ _ _ hg => hbefore.trans hg
  · intro l hterm hx hp hl
    exact succeeds_search h hterm ⟨hx, hp⟩ hl listed w
  · intro _ hx hp hl _
    exact succeeds_begun ⟨hx, hp⟩ hl w

omit [OffsetStore τ] in
/-- **A release** keeps the object in hand. -/
theorem succeeds_close (h : f.Orderly) (w : World σ τ) :
    f.Succeeds w (f.close w).1 (f.close w).2 := by
  rcases close_cases f w with ⟨-, hclose⟩ | ⟨x, hx, hclose⟩
  · rw [hclose]
    exact .refl h
  · rw [hclose]
    obtain ⟨hkey, hacc⟩ := h.hand x.summary (.inl ⟨x, hx, rfl⟩)
    have hterm : f.terminated = false := by
      rw [← Bool.not_eq_true]
      intro htrue
      cases hx.symm.trans (h.ended htrue).1
    have hheld : Orderly { f with current := none, pending := some x.summary } := by
      refine h.hold rfl rfl rfl hterm (.inl rfl) ?_ hkey hacc
      rintro t (⟨y, hy, -⟩ | hp)
      · cases hy
      · exact (Option.some.inj hp).symm
    exact .of_eq hheld rfl rfl rfl (RecordStream.stock_giveBack x.stream.state w.objects)

/-- **Acts keep a feed orderly at all moments.** -/
theorem succeeds_path {f' : Feed} {w' : World σ τ} {ms : List (Moment σ τ)}
    (hpath : Path f w ms f' w') (h : f.Orderly) :
    f.Succeeds w f' w' ∧ ∀ m ∈ ms, f.Succeeds w m.feed m.world := by
  refine hpath.keeps (I := fun g v => f.Succeeds w g v) ?_ ?_ ?_ (.refl h)
  · intro g listed v hg
    exact (succeeds_turn hg.orderly listed v).mono (fun _ _ _ hg' => hg.trans hg')
      fun _ _ _ hg' => hg.trans hg'
  · intro g v deferred hg
    have ho := hg.orderly
    have hsame : Orderly { g with deferred } :=
      ⟨ho.onward, ho.single, ho.hand, ho.ascending, ho.later, ho.ended⟩
    exact hg.trans (.of_eq hsame rfl rfl rfl rfl)
  · intro g v hg
    exact hg.trans (succeeds_close hg.orderly v)

/-- **A run keeps a feed orderly**, and what it has listed stays listed. -/
theorem orderly_steps {limit : Feed → World σ τ → Nat} (h : f.Orderly) (ss : List (Step σ τ))
    (w : World σ τ) : (steps limit ss f w).1.Orderly ∧ f.Precedes (steps limit ss f w).1 := by
  induction ss generalizing f w with
  | nil => exact ⟨h, .of_eq rfl⟩
  | cons s ss ih =>
    cases s with
    | ask a =>
      have hact := (succeeds_path (act_path limit a f w) h).1
      obtain ⟨horderly, hkey⟩ := ih hact.orderly (act limit a f w).2.2
      exact ⟨horderly, hact.key.trans hkey⟩
    | change g => exact ih h (g w)

/-- The object that is being read is open, and the last of the records is one of it: its stream has
counted beyond what it resumed from. -/
def UnderWay (f : Feed) (ds : List Delivery) : Prop :=
  ∀ x, f.current = some x → (∃ d, x.stream.state = .reading d) ∧
    x.stream.resumeFrom < x.stream.offset.count ∧ ∃ r, ds.getLast? = some (deliver x r)

theorem underWay_of_none (h : f.current = none) (ds : List Delivery) : f.UnderWay ds := by
  intro x hx
  rw [h] at hx
  cases hx

omit [ObjectStock σ] in
/-- **A turn with an outcome has delivered a record or has let go of its object.** -/
theorem underWay_turn (h : f.Orderly) (ds : List Delivery) (listed : Bool) (w : World σ τ) :
    (f.turn listed w).Leads (fun _ _ _ => True)
      (fun r g _ => g.UnderWay (ds ++ recordsOf [r])) := by
  have htake : ∀ {g : Feed} (s : Summary) (v : World σ τ), g.current = none →
      (g.take s v).Leads (fun _ _ _ => True) (fun r g _ => g.UnderWay (ds ++ recordsOf [r])) := by
    intro g s v hg
    refine take_leads (fun _ => trivial) (fun _ _ _ _ _ _ => trivial) ?_ ?_
    · intro k e cache offsets _ _
      exact underWay_of_none ((current_afterStoreError g s e).trans hg) _
    · intro k e cache offsets _ _
      exact underWay_of_none hg _
  refine turn_leads ?_ ?_ ?_ ?_ ?_ (fun _ _ _ _ _ => trivial)
  · intro hterm
    exact underWay_of_none (h.ended hterm).1 _
  · intro x _ _
    refine advance_leads ?_ ?_ fun _ _ _ => trivial
    · intro r stream objects hnext
      obtain ⟨hreading, hcount, -⟩ := RecordStream.offset_of_next hnext
      rintro y ⟨⟩
      exact ⟨hreading, hcount, r, List.getLast?_concat⟩
    · intro e stream objects _
      refine afterStreamError_leads ?_ (fun _ _ => underWay_of_none rfl _) fun _ _ => trivial
      intro e' _
      exact underWay_of_none (current_afterStoreError { f with current := none } x.summary e') _
  · intro s _ hx _
    exact htake (g := { f with pending := none }) s w hx
  · intro l _ hx _ _
    refine search_leads ?_ (fun _ _ _ => trivial) (fun _ _ _ => trivial)
      fun _ _ _ _ => underWay_of_none hx _
    intro s l' objects _
    exact ⟨fun _ => htake (g := { f with listing := some l', lastKey := some s.key }) s _ hx,
      fun _ => trivial⟩
  · intro _ hx _ _ _
    exact underWay_of_none hx _

/-- **A pull ends with such a turn**, however many turns come before. -/
theorem Ends.underWay {listed : Bool} {ms : List (Moment σ τ)} {r : Option (Except Error Delivery)}
    {f' : Feed} {w' : World σ τ} (hends : Ends listed f w ms r f' w') (h : f.Orderly)
    (ds : List Delivery) : f'.UnderWay (ds ++ recordsOf [r]) := by
  induction hends with
  | @outcome listed f f' w w' r hturn =>
    have hlast := underWay_turn h ds listed w
    rw [hturn] at hlast
    exact hlast
  | @again listed _ f g _ w _ _ _ _ hturn _ ih =>
    have hnext := succeeds_turn h listed w
    rw [hturn] at hnext
    exact ih hnext.orderly

variable {limit : Nat} {ds : List Delivery}

theorem underWay_pull (h : f.Orderly) (hlimit : 8 * f.left w + 10 ≤ limit) (ds : List Delivery) :
    (f.pull limit false w).2.1.UnderWay (ds ++ recordsOf [(f.pull limit false w).1]) := by
  obtain ⟨ms, r, f', w', hends, hlength⟩ := exists_ends h.onward Bool.false_ne_true.elim w
  have heffort := effort_le_left f w
  rw [hends.pull_eq (by omega)]
  exact hends.underWay h ds

/-- A bound on the turns that is enough for the first pull of a batch is enough for all of them, as
each leaves less to do. -/
theorem underWay_collect (n : Nat) (batch : List Delivery) (h : f.Orderly)
    (hunder : f.UnderWay (ds ++ batch)) (hlimit : 8 * f.left w + 10 ≤ limit) :
    (f.collect limit n batch w).2.1.UnderWay
      (ds ++ (Answer.polled (f.collect limit n batch w).1).records) := by
  induction n generalizing batch f w with
  | zero => exact hunder
  | succ n ih =>
    have hpull := fun ds => underWay_pull h hlimit ds
    have hnext := (succeeds_path (pull_path limit false f w) h).1
    unfold collect
    generalize f.pull limit false w = out at hpull hnext
    obtain ⟨r, f', w'⟩ := out
    rcases r with _ | e | d
    · have hlast := hpull (ds ++ batch)
      rwa [show recordsOf [none] = [] from rfl, List.append_nil] at hlast
    · simp only
      split
      · exact hpull ds
      · have hlast := hpull (ds ++ batch)
        rw [show recordsOf [some (.error e)] = [] from rfl, List.append_nil] at hlast
        exact hlast
    · have hlast := hpull (ds ++ batch)
      rw [List.append_assoc] at hlast
      have hleft : f'.left w' ≤ f.left w := hnext.left
      exact ih (batch ++ [d]) hnext.orderly hlast (by omega)

theorem underWay_poll (n : Nat) (h : f.Orderly) (hunder : f.UnderWay ds)
    (hlimit : 8 * f.left w + 10 ≤ limit) :
    (f.poll limit n w).2.1.UnderWay (ds ++ (Answer.polled (f.poll limit n w).1).records) := by
  have hbatch : f.UnderWay (ds ++ []) := by rwa [List.append_nil]
  unfold poll
  split
  · exact hbatch
  · exact underWay_collect n [] h hbatch hlimit

end Turns

section Runs

variable {limit : Feed → MemoryWorld → Nat} {ds : List Delivery}

theorem underWay_act (hlimit : ∀ f w, f.turnLimit w ≤ limit f w) (h : f.Orderly)
    (hunder : f.UnderWay ds) (a : Act) (w : MemoryWorld) :
    (act limit a f w).2.1.UnderWay (ds ++ (act limit a f w).1.records) := by
  have henough : 8 * f.left w + 10 ≤ limit f w := by
    have hbound := hlimit f w
    have hleft := left_le f w
    rw [turnLimit_eq] at hbound
    omega
  cases a with
  | next => exact underWay_pull h henough ds
  | poll n => exact underWay_poll n h hunder henough
  | pollBatch => exact underWay_poll f.maxPollRecords h hunder henough
  | close => exact underWay_of_none (current_close f w) _

/-- **After each act of a run the object that is being read has delivered the last record.** -/
theorem underWay_steps (hlimit : ∀ f w, f.turnLimit w ≤ limit f w) (h : f.Orderly)
    (hunder : f.UnderWay ds) (ss : List (Step MemoryObjects MemoryOffsets)) (w : MemoryWorld) :
    (steps limit ss f w).1.UnderWay (ds ++ records limit ss f w) := by
  induction ss generalizing ds f w with
  | nil =>
    rw [records, List.append_nil]
    exact hunder
  | cons s ss ih =>
    cases s with
    | ask a =>
      have hact := (succeeds_path (act_path limit a f w) h).1
      rw [records, ← List.append_assoc]
      exact ih hact.orderly (underWay_act hlimit h hunder a w) _
    | change g => exact ih h hunder (g w)

theorem setup_steps (ss : List (Step MemoryObjects MemoryOffsets)) (f : Feed) (w : MemoryWorld) :
    (steps limit ss f w).1.setup = f.setup := by
  induction ss generalizing f w with
  | nil => rfl
  | cons s ss ih =>
    cases s with
    | ask a => exact (ih _ _).trans (act_path limit a f w).setup_eq.1
    | change g => exact ih f (g w)

theorem steps_append (before after : List (Step MemoryObjects MemoryOffsets)) (f : Feed)
    (w : MemoryWorld) : steps limit (before ++ after) f w =
      steps limit after (steps limit before f w).1 (steps limit before f w).2 := by
  induction before generalizing f w with
  | nil => rfl
  | cons s before ih => exact ih _ _

theorem orderly_start {d : Directories} {c : FeedConfig} {failed : KeySet}
    (h : start d c failed = .ok f) : f.Orderly := by
  have hfresh := fresh_start h
  have hfree : f.Free := ⟨hfresh.current, hfresh.pending⟩
  have hbuffered : f.buffered = [] := buffered_of_closed hfresh.listing
  refine ⟨onward_start h, .inl hfresh.current, ?_, ?_, ?_, fun _ => hfree⟩
  · intro s hs
    exact (hfree.not_inHand hs).elim
  · rw [hbuffered]
    exact .nil
  · rw [hbuffered]
    exact fun s hs => absurd hs List.not_mem_nil

/-- **The state of a feed between calls**, whatever is asked of it and whatever becomes of its
stores. At most one object is being read or the next one, also while a call goes on. It is the one
that was listed last, which the feed accepts, and if it is being read it has delivered the last
record. What was received comes after it in order. When the feed has ended nothing is in hand. -/
theorem one_in_hand (hlimit : ∀ f w, f.turnLimit w ≤ limit f w) {d : Directories} {c : FeedConfig}
    {failed : KeySet} {f₀ : Feed} (hf : start d c failed = .ok f₀) (w₀ : MemoryWorld)
    (ss : List (Step MemoryObjects MemoryOffsets)) :
    let f := (steps limit ss f₀ w₀).1
    let w := (steps limit ss f₀ w₀).2
    (f.current = none ∨ f.pending = none) ∧
      (∀ a, ∀ m ∈ actMoments limit a f w, m.feed.current = none ∨ m.feed.pending = none) ∧
      (∀ s, f.InHand s → f.lastKey = some s.key ∧ 0 < s.size ∧
        (Assignment.resolve c.taskId c.maxTasks).owns s.key = true ∧
        f.filter.failed.contains s.key = false) ∧
      (∀ x, f.current = some x → (∃ d, x.stream.state = .reading d) ∧
        x.stream.resumeFrom < x.stream.offset.count ∧
        ∃ r, (records limit ss f₀ w₀).getLast? = some (deliver x r)) ∧
      (∀ before after, ss = before ++ after →
        ∀ k, (steps limit before f₀ w₀).1.lastKey = some k → ∃ k', f.lastKey = some k' ∧ k ≤ k') ∧
      (f.buffered.Pairwise fun s t => s.key < t.key) ∧
      (∀ s ∈ f.buffered, ∀ k, f.lastKey = some k → k < s.key) ∧
      (f.terminated = true → f.current = none ∧ f.pending = none) := by
  intro f w
  have hstart := orderly_start hf
  have horderly : f.Orderly := (orderly_steps hstart ss w₀).1
  refine ⟨horderly.single, ?_, ?_, ?_, ?_, horderly.ascending, ?_, horderly.ended⟩
  · intro a m hm
    have hmoments := (succeeds_path (act_path limit a f w) horderly).2
    exact (hmoments m hm).orderly.single
  · intro s hs
    have hassignment : f.filter.assignment = .resolve c.taskId c.maxTasks := by
      rw [assignment_congr (setup_steps ss f₀ w₀)]
      obtain ⟨template, settings, -, -, rfl⟩ := start_eq_ok_iff.1 hf
      rfl
    obtain ⟨hkey, hacc⟩ := horderly.hand s hs
    simp only [TaskFilter.accepts, Bool.and_eq_true, decide_eq_true_eq, Bool.not_eq_true'] at hacc
    obtain ⟨⟨hsize, howned⟩, hfailed⟩ := hacc
    rw [hassignment] at howned
    exact ⟨hkey, hsize, howned, hfailed⟩
  · have hnone : f₀.UnderWay [] := underWay_of_none (fresh_start hf).current []
    exact underWay_steps hlimit hstart hnone ss w₀
  · rintro before after rfl
    have hbefore : (steps limit before f₀ w₀).1.Orderly := (orderly_steps hstart before w₀).1
    have hafter : (steps limit before f₀ w₀).1.Precedes (steps limit after
        (steps limit before f₀ w₀).1 (steps limit before f₀ w₀).2).1 :=
      (orderly_steps hbefore after _).2
    rw [← steps_append] at hafter
    exact hafter
  · intro s hs k hk
    have hlater := horderly.later s hs
    rw [hk] at hlater
    exact of_decide_eq_true hlater

/-- The first object is being read after a record of it, and the second one has been received with
it. -/
theorem one_in_hand_sample :
    let f := (steps turnLimit sampleSteps sampleFeed sampleWorld).1
    f.buffered = [⟨"b", 1⟩] ∧ f.pending = none ∧ ∃ x, f.current = some x ∧
      f.lastKey = some x.summary.key ∧ x.stream.resumeFrom < x.stream.offset.count ∧
      ∃ r, (records turnLimit sampleSteps sampleFeed sampleWorld).getLast? =
        some (deliver x r) := by
  intro f
  obtain ⟨hsingle, -, hhand, hreading, -⟩ :=
    one_in_hand (fun _ _ => Nat.le_refl _) start_sampleConfig sampleWorld sampleSteps
  have hbuffered : f.buffered = [⟨"b", 1⟩] := by cbv
  have hsome : f.current.isSome = true := by cbv
  obtain ⟨x, hx⟩ := Option.isSome_iff_exists.1 hsome
  have hpending : f.pending = none := by
    refine hsingle.resolve_left fun hnone => ?_
    cases hx.symm.trans hnone
  obtain ⟨hkey, -⟩ := hhand x.summary (.inl ⟨x, hx, rfl⟩)
  obtain ⟨-, hcount, hlast⟩ := hreading x hx
  exact ⟨hbuffered, hpending, x, hx, hkey, hcount, hlast⟩

end Runs

end Feed

end ObjectFeed
