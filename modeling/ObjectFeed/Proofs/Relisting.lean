import ObjectFeed.Proofs.Termination

/-!
# Pulls that return nothing

A pull that returns nothing has begun a listing after the last key that it had seen, and has
rejected all that is stored there. It has begun that listing itself: what is left of an earlier one
does not count. If nothing is stored there, one request is all that the pull does.

* `Feed.beyond`: what is stored after the last key.
* `Moment.item?`: the object that a turn takes from a listing.
* `Feed.Fruitless`: turns that move a listing on to its end and accept nothing.
* `Feed.Fruitless.cons`, `Feed.Moves.fruitless`: one more turn.
* `Feed.Ends.relisted`: **the turns of a pull that returns nothing.**
* `Feed.ends_of_beyond_nil`: a pull with nothing to do.
* `Feed.pull_ends`: **every pull ends**, and how one ends that returns nothing.
-/

namespace ObjectFeed

open MemoryObjects (matching page)
open ObjectStock (stock)

namespace Feed

variable {σ τ : Type}

/-- The object that a turn takes from the listing that is open, if it does. -/
def Moment.item? (m : Moment σ τ) : Option Summary :=
  match m.feed.terminated, m.feed.current, m.feed.pending, m.feed.listing with
  | false, none, none, some l => l.buffer.head?
  | _, _, _, _ => none

theorem item?_of_free {f : Feed} (hterm : f.terminated = false) (hfree : f.Free) (listed : Bool)
    (w : World σ τ) : (⟨listed, f, w⟩ : Moment σ τ).item? = f.buffered.head? := by
  unfold Moment.item? buffered
  rw [hterm, hfree.1, hfree.2]
  cases f.listing <;> rfl

variable [ObjectStore σ] [ObjectStock σ]

/-- What is stored after the last key that a listing has delivered. -/
def beyond (f : Feed) (w : World σ τ) : List Summary :=
  matching (stock w.objects f.lister.bucket) f.lister.keyPrefix f.lastKey

/-- What the listing that is open is still to deliver. -/
def remaining (f : Feed) (w : World σ τ) : List Summary :=
  f.listing.elim [] fun l => l.buffer ++ if l.done then [] else f.unlisted w

omit [ObjectStore σ] [ObjectStock σ] in
/-- The request that the listing that is open sends next. -/
def nextRequest (f : Feed) : List ListRequest :=
  f.listing.elim [] fun l => if l.done then [] else [l.request]

/-- The store after listing requests. -/
def requested (s : σ) (rs : List ListRequest) : σ := rs.foldl (fun s r => (ObjectStore.list s r).2) s

/-- Turns that move the listing that is open on to its end and accept nothing. All that they ask the
stores for is the pages of the listing. -/
structure Fruitless (f : Feed) (w : World σ τ) (ms : List (Moment σ τ)) (f' : Feed)
    (w' : World σ τ) : Prop where
  listed : ∀ m ∈ ms, m.listed = true
  items : ms.filterMap Moment.item? = f.remaining w
  rejected : ∀ s ∈ f.remaining w, f.filter.accepts s = false
  feed : f' = { f with listing := none, lastKey := edge f.lastKey (f.remaining w) }
  world : ∃ more, (∀ r ∈ more, r.token ≠ none ∧ r.startAfter = none) ∧
    w' = { w with objects := requested w.objects (f.nextRequest ++ more) }

variable {f g f' : Feed} {w v w' : World σ τ} {listed : Bool} {ms : List (Moment σ τ)}
  {r : Option (Except Error Delivery)}

theorem remaining_of_open {l : Listing} (hl : f.listing = some l) (w : World σ τ) :
    f.remaining w = l.buffer ++ if l.done then [] else f.unlisted w := by
  rw [remaining, hl]
  rfl

omit [ObjectStore σ] [ObjectStock σ] in
theorem nextRequest_of_open {l : Listing} (hl : f.listing = some l) :
    f.nextRequest = if l.done then [] else [l.request] := by
  rw [nextRequest, hl]
  rfl

/-- A listing that is over has nothing to deliver. -/
theorem fruitless_over (hterm : f.terminated = false) (hfree : f.Free) (hl : f.listing = none)
    (w : World σ τ) : Fruitless f w [⟨true, f, w⟩] f w := by
  have hremaining : f.remaining w = [] := by rw [remaining, hl]; rfl
  have hitem := item?_of_free hterm hfree true w
  rw [buffered_of_closed hl] at hitem
  refine ⟨by simp, ?_, ?_, ?_, [], by simp, ?_⟩
  · rw [hremaining]
    simp [hitem]
  · rw [hremaining]
    simp
  · rw [hremaining, ← hl]
    rfl
  · rw [nextRequest, hl]
    rfl

omit [ObjectStock σ] in
theorem requested_append (s : σ) (rs qs : List ListRequest) :
    requested s (rs ++ qs) = requested (requested s rs) qs := List.foldl_append

/-- **One more turn before fruitless ones.** It may take an object that is rejected, and may ask for
what was to be asked for next. -/
theorem Fruitless.cons (h : Fruitless g v ms f' w') (asked later : List ListRequest)
    {item : Option Summary} (hitem : (⟨true, f, w⟩ : Moment σ τ).item? = item)
    (hremaining : f.remaining w = item.toList ++ g.remaining v)
    (hrejected : ∀ s ∈ item.toList, f.filter.accepts s = false)
    (hg : { g with listing := none } =
      { f with listing := none, lastKey := edge f.lastKey item.toList })
    (hv : v = { w with objects := requested w.objects asked })
    (hasked : asked ++ g.nextRequest = f.nextRequest ++ later)
    (hlater : ∀ r ∈ later, r.token ≠ none ∧ r.startAfter = none) :
    Fruitless f w (⟨true, f, w⟩ :: ms) f' w' := by
  obtain ⟨hlisted, hitems, hrest, hfeed, more, hmore, hworld⟩ := h
  have hfilter : g.filter = f.filter := congrArg (·.filter) hg
  have hlastKey : edge g.lastKey (g.remaining v) = edge f.lastKey (f.remaining w) := by
    have hone : g.lastKey = edge f.lastKey item.toList := congrArg (·.lastKey) hg
    rw [hone, hremaining]
    cases item with
    | none => rfl
    | some x => exact (edge_cons f.lastKey x _).symm
  refine ⟨List.forall_mem_cons.2 ⟨rfl, hlisted⟩, ?_, ?_, ?_, later ++ more,
    List.forall_mem_append.2 ⟨hlater, hmore⟩, ?_⟩
  · rw [hremaining, ← hitems, List.filterMap_cons, hitem]
    cases item <;> rfl
  · rw [hremaining]
    rw [hfilter] at hrest
    exact List.forall_mem_append.2 ⟨hrejected, hrest⟩
  · rw [hfeed, ← hlastKey]
    exact congrArg (fun f₁ : Feed => { f₁ with lastKey := edge g.lastKey (g.remaining v) }) hg
  · have hall : requested w.objects (f.nextRequest ++ (later ++ more)) =
        requested (requested w.objects asked) (g.nextRequest ++ more) := by
      rw [← requested_append, ← List.append_assoc, ← hasked, List.append_assoc]
    rw [hworld, hv, hall]

theorem Moves.free_of_listed (h : f.Moves w listed true g v) : f.Free := by
  cases h <;> assumption

omit [ObjectStore σ] [ObjectStock σ] in
/-- After a page the next request has a token and does not say where to start. -/
theorem token_of_accept (f : Feed) (l : Listing) (p : Page) :
    ∀ r ∈ nextRequest { f with listing := some (l.accept p) },
      r.token ≠ none ∧ r.startAfter = none := by
  intro r hr
  rw [nextRequest_of_open rfl] at hr
  cases hnext : p.next with
  | none => simp [Listing.accept, hnext] at hr
  | some token =>
    simp only [Listing.accept, hnext] at hr
    split at hr
    · cases hr
    · rw [List.mem_singleton.1 hr]
      exact ⟨Option.some_ne_none token, rfl⟩

/-- What a page lists, and what comes after it, is all that the listing is still to deliver. -/
theorem remaining_of_page {l : Listing} {p : Page} {objects : σ} (hf : f.Onward)
    (hl : f.listing = some l) (hb : l.buffer = []) (hd : l.done = false)
    (hstock : stock objects = stock w.objects)
    (hp : p = page l.request.maxKeys
      (matching (stock w.objects f.lister.bucket) f.lister.keyPrefix f.lastKey)) :
    f.remaining w = remaining { f with listing := some (l.accept p) } { w with objects } := by
  obtain ⟨-, -, hlast⟩ := (hf l hl).accept_page hb hd hp
  obtain ⟨hsplit, -⟩ := page_edge l.request.maxKeys (stock w.objects f.lister.bucket)
    f.lister.keyPrefix f.lastKey
  rw [← hp] at hsplit
  have hbuffered : f.buffered = [] := (buffered_of_open hl).trans hb
  have hreceived : (l.accept p).buffer = p.objects := Listing.buffer_accept hb p
  have hbefore : f.remaining w = f.beyond w := by
    rw [remaining_of_open hl, hb, hd, if_neg Bool.false_ne_true, unlisted, hbuffered]
    rfl
  have hafter : unlisted { f with listing := some (l.accept p) } { w with objects } =
      matching (stock w.objects f.lister.bucket) f.lister.keyPrefix (edge f.lastKey p.objects) := by
    unfold unlisted buffered
    simp only [Option.elim, hreceived, hstock]
  -- nothing comes after a page that says that it is the last one
  rw [hbefore, beyond, hsplit, remaining]
  simp only [Option.elim, hreceived, hafter]
  by_cases hdone : (l.accept p).done = true
  · rw [if_pos hdone, hlast hdone]
  · rw [if_neg hdone]

/-- **One more turn that moves a listing on** and accepts nothing. -/
theorem Moves.fruitless (h : f.Moves w true true g v) (hf : f.Onward) (hterm : f.terminated = false)
    (hlater : Fruitless g v ms f' w') : Fruitless f w (⟨true, f, w⟩ :: ms) f' w' := by
  have hitem := item?_of_free hterm h.free_of_listed true w
  cases h with
  | begun _ _ hnot => cases hnot
  | @rejected l x buffer _ hl hb hx =>
    have hbuffered : f.buffered = x :: buffer := (buffered_of_open hl).trans hb
    rw [hbuffered] at hitem
    refine hlater.cons [] [] hitem ?_ ?_ rfl rfl ?_ (by simp)
    · rw [remaining_of_open hl, remaining_of_open rfl, hb]
      simp only [unlisted, hbuffered, edge_cons]
      rfl
    · simpa using hx
    · rw [List.append_nil, nextRequest_of_open hl]
      rfl
  | @fetched l p objects _ hl hb hd hlist hp =>
    rw [(buffered_of_open hl).trans hb] at hitem
    have hstock : stock objects = stock w.objects := by
      rw [← ObjectStock.stock_list w.objects l.request, hlist]
    have hrequest : f.nextRequest = [l.request] := by
      rw [nextRequest_of_open hl, hd, if_neg Bool.false_ne_true]
    have hobjects : requested w.objects [l.request] = objects := by
      rw [requested, List.foldl_cons, hlist, List.foldl_nil]
    refine hlater.cons [l.request] _ hitem (remaining_of_page hf hl hb hd hstock hp) (by simp) rfl
      ?_ ?_ (token_of_accept f l p)
    · rw [hobjects]
    · rw [hrequest]
  | @ended l _ hl hb hd =>
    rw [(buffered_of_open hl).trans hb] at hitem
    refine hlater.cons [] [] hitem ?_ (by simp) rfl rfl ?_ (by simp)
    · rw [remaining_of_open hl, hb, if_pos hd]
      rfl
    · rw [List.append_nil, nextRequest_of_open hl, if_pos hd]
      rfl

variable [OffsetStore τ]

/-- **The turns of a pull that returns nothing** end with those of a listing that the pull has
begun, and accept nothing of it. By induction on the turns, from the last one back to the beginning
of that listing. -/
theorem Ends.relisted (h : Ends listed f w ms r f' w') (hr : r = none) (hf : f.Onward)
    (hterm : f.terminated = false) :
    (∃ before g v after, ms = before ++ ⟨false, g, v⟩ :: after ∧ g.Free ∧ g.listing = none ∧
      Fruitless { g with listing := some (g.lister.start g.lastKey) } v after f' w') ∨
    listed = true ∧ f.Free ∧ Fruitless f w ms f' w' := by
  induction h with
  | @outcome listed f f' w w' r hturn =>
    have hleads := turn_moves hf listed w
    rw [hturn] at hleads
    obtain ⟨rfl, hfree, hl, rfl, rfl⟩ := hleads.2 hr hterm
    exact .inr ⟨rfl, hfree, fruitless_over hterm hfree hl _⟩
  | @again listed listed' f g f' w v w' ms r hturn hrest ih =>
    have hmoves : f.Moves w listed listed' g v := by
      have hleads := turn_moves hf listed w
      rw [hturn] at hleads
      exact hleads
    -- a listing that has been begun later is not the concern of this turn
    rcases ih hr (hmoves.onward hf) (hmoves.not_terminated hterm) with
      ⟨before, g₁, v₁, after, rfl, hbegun⟩ | ⟨rfl, hfree, hfruitless⟩
    · exact .inl ⟨⟨listed, f, w⟩ :: before, g₁, v₁, after, rfl, hbegun⟩
    · have hbefore := hmoves.free_of_listed
      cases listed with
      | true => exact .inr ⟨rfl, hbefore, hmoves.fruitless hf hterm hfruitless⟩
      | false =>
        -- the listing has been begun by this turn
        cases hmoves with
        | begun _ hl _ => exact .inl ⟨[], f, w, ms, rfl, hbefore, hl, hfruitless⟩

/-- **A pull with nothing to do** makes one request: there is one page, without objects, or the
request fails. -/
theorem ends_of_beyond_nil (hterm : f.terminated = false) (hfree : f.Free) (hl : f.listing = none)
    (hnone : f.beyond w = []) :
    ∃ ms r f', Ends false f w ms r f' { w with
      objects := (ObjectStore.list w.objects (f.lister.start f.lastKey).request).2 } := by
  obtain ⟨hcurrent, hpending⟩ := hfree
  have hbegin : f.turn false w =
      .again true { f with listing := some (f.lister.start f.lastKey) } w := by
    simp [turn, hterm, hcurrent, hpending, hl]
  have hbuffer : (f.lister.start f.lastKey).buffer = [] := rfl
  have hdone : (f.lister.start f.lastKey).done = false := rfl
  have hstart : (f.lister.start f.lastKey).request.StartsAfter f.lastKey := .inl ⟨rfl, rfl⟩
  rcases ObjectStock.list_cases w.objects hstart with ⟨s', hlist⟩ | ⟨e, s', hlist⟩
  · have hpage : page (f.lister.start f.lastKey).request.maxKeys (f.beyond w) = ⟨[], none⟩ := by
      rw [hnone]
      simp [page]
    have hlist : ObjectStore.list w.objects (f.lister.start f.lastKey).request =
        (.ok ⟨[], none⟩, s') := hpage ▸ hlist
    let l : Listing := (f.lister.start f.lastKey).accept ⟨[], none⟩
    have hstep : (f.lister.start f.lastKey).step w.objects = (.fetched, l, s') := by
      simp only [Listing.step, hbuffer, hdone, hlist, if_neg Bool.false_ne_true]
      rfl
    have hfetch : { f with listing := some (f.lister.start f.lastKey) }.turn true w =
        .again true { f with listing := some l } { w with objects := s' } := by
      simp [turn, hterm, hcurrent, hpending, search, hstep]
    have hend : { f with listing := some l }.turn true { w with objects := s' } =
        .again true { f with listing := none } { w with objects := s' } := by
      have hover : l.step s' = (.ended, l, s') := rfl
      simp [turn, hterm, hcurrent, hpending, search, hover]
    -- a listing has been begun, so none is begun again
    have hnothing : { f with listing := none }.turn true { w with objects := s' } =
        .outcome none { f with listing := none } { w with objects := s' } := by
      simp [turn, hterm, hcurrent, hpending]
    rw [hlist]
    exact ⟨_, _, _, .again hbegin (.again hfetch (.again hend (.outcome hnothing)))⟩
  · have hstep : (f.lister.start f.lastKey).step w.objects =
        (.failed e, { f.lister.start f.lastKey with done := true }, s') := by
      simp only [Listing.step, hbuffer, hdone, hlist, if_neg Bool.false_ne_true]
    have hfail : { f with listing := some (f.lister.start f.lastKey) }.turn true w =
        .outcome (some (.error (.store e))) { f with listing := none } { w with objects := s' } := by
      simp [turn, hterm, hcurrent, hpending, search, hstep]
    rw [hlist]
    exact ⟨_, _, _, .again hbegin (.outcome hfail)⟩

/-- **Every pull ends**, in any state of a feed and over stores that fail or change. Its turns are
bounded by the objects stored and received. It returns nothing only when a listing that it has begun
after the last key finds nothing to read, or when the feed has ended. With nothing in hand, no
listing open and nothing stored after the last key, it sends one request. -/
theorem pull_ends {d : Directories} {c : FeedConfig} {failed : KeySet} {f₀ : Feed}
    (h : start d c failed = .ok f₀) (w₀ : World σ τ) (limit : Feed → World σ τ → Nat)
    (ss : List (Step σ τ)) :
    let f := (steps limit ss f₀ w₀).1
    let w := (steps limit ss f₀ w₀).2
    ∃ ms r f' w', Ends false f w ms r f' w' ∧
      ms.length ≤
        8 * ((stock w.objects f.lister.bucket).members.length + f.buffered.length) + 16 ∧
      (∀ bound, ms.length ≤ bound → f.pull bound false w = (r, f', w')) ∧
      (r = none → f.terminated = false → ∃ before g v after more,
        ms = before ++ ⟨false, g, v⟩ :: after ∧ g.Free ∧ g.listing = none ∧
        (∀ m ∈ after, m.listed = true) ∧ after.filterMap Moment.item? = g.beyond v ∧
        (∀ s ∈ g.beyond v, g.filter.accepts s = false) ∧
        f' = { g with listing := none, lastKey := edge g.lastKey (g.beyond v) } ∧
        (∀ q ∈ more, q.token ≠ none ∧ q.startAfter = none) ∧
        w' = { v with
          objects := requested v.objects ((g.lister.start g.lastKey).request :: more) }) ∧
      (f.terminated = false → f.Free → f.listing = none → f.beyond w = [] →
        w' = { w with
          objects := (ObjectStore.list w.objects (f.lister.start f.lastKey).request).2 }) := by
  intro f w
  have honward : f.Onward := onward_steps (onward_start h) ss w₀
  have hbegin : false = true → f.Free := nofun
  obtain ⟨ms, r, f', w', hends, hlength⟩ := exists_ends honward hbegin w
  have heffort := f.effort_le w
  refine ⟨ms, r, f', w', hends, by omega, fun bound hbound => hends.pull_eq hbound,
    fun hr hterm => ?_, fun hterm hfree hl hnone => ?_⟩
  · rcases hends.relisted hr honward hterm with
      ⟨before, g, v, after, hms, hfree, hl, hlisted, hitems, hrejected, hfeed, more, hmore, hworld⟩ |
      ⟨hlisted, -⟩
    · -- a listing that has just been begun is to deliver all that is stored after the last key
      have hstart : remaining { g with listing := some (g.lister.start g.lastKey) } v =
          g.beyond v := rfl
      rw [hstart] at hitems hrejected hfeed
      exact ⟨before, g, v, after, more, hms, hfree, hl, hlisted, hitems, hrejected, hfeed, hmore,
        hworld⟩
    · cases hlisted
  · obtain ⟨ms', r', f'', hends'⟩ := ends_of_beyond_nil hterm hfree hl hnone
    -- a pull has one outcome
    have hsame := (hends.pull_eq (Nat.le_add_right ms.length ms'.length)).symm.trans
      (hends'.pull_eq (Nat.le_add_left ms'.length ms.length))
    exact congrArg (fun out => out.2.2) hsame

omit [OffsetStore τ] in
/-- Over stores in memory the bound is the one of `next`. -/
theorem turnLimit_eq (f : Feed) (w : MemoryWorld) : f.turnLimit w =
    8 * ((stock w.objects f.lister.bucket).members.length + f.buffered.length) + 16 := by
  unfold turnLimit buffered
  cases f.listing <;> rfl

/-- All objects have been read or rejected, so the next call asks for a page after the last key and
for nothing else. -/
theorem pull_ends_sample :
    let before := steps turnLimit [.ask (.poll 10)] sampleFeed sampleWorld
    let after := before.1.next before.2
    before.1.lastKey = some "d" ∧ after.1 = none ∧
      after.2.2.objects.listLog =
        before.2.objects.listLog ++ [(sampleFeed.lister.start (some "d")).request] ∧
      after.2.2.objects.fetchLog = before.2.objects.fetchLog := by
  dsimp only
  obtain ⟨ms, r, f', w', -, hlength, hpull, -, hidle⟩ :=
    pull_ends start_sampleConfig sampleWorld turnLimit [.ask (.poll 10)]
  -- where the feed stands, evaluated once
  have hstands : let f := (steps turnLimit [.ask (.poll 10)] sampleFeed sampleWorld).1
      (f.terminated, f.current, f.pending, f.listing, f.lastKey, f.lister) =
        (false, none, none, none, some "d", sampleFeed.lister) := by cbv
  simp only [Prod.mk.injEq] at hstands
  obtain ⟨hterm, hcurrent, hpending, hlisting, hkey, hlister⟩ := hstands
  have hnothing : ((steps turnLimit [.ask (.poll 10)] sampleFeed sampleWorld).1.next
      (steps turnLimit [.ask (.poll 10)] sampleFeed sampleWorld).2).1 = none := by cbv
  have hworld := hidle hterm ⟨hcurrent, hpending⟩ hlisting (by cbv)
  rw [hkey, hlister] at hworld
  have hnext : (steps turnLimit [.ask (.poll 10)] sampleFeed sampleWorld).1.next
      (steps turnLimit [.ask (.poll 10)] sampleFeed sampleWorld).2 = (r, f', w') :=
    hpull _ (by rw [turnLimit_eq]; exact hlength)
  rw [hnext] at hnothing ⊢
  refine ⟨hkey, hnothing, ?_, ?_⟩
  · rw [hworld]
    rfl
  · rw [hworld]
    rfl

end Feed

end ObjectFeed
