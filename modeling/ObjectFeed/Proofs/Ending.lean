import ObjectFeed.Proofs.Acts
import ObjectFeed.Proofs.WholeRun

/-!
# The end of a feed

A fatal error ends a feed, and nothing else does. An error is fatal if what is known of an object's
identity is malformed, or if an object is malformed and the feed tolerates no such objects. Once it
has ended, a feed asks the stores for nothing more.

* `Error.isFatal`: the errors that end a feed.
* `Feed.Moment.met`: the error that a turn meets, whatever becomes of it.
* `Feed.turn_met`: what becomes of it.
* `Feed.ended_path`: **a feed has ended just when it has met a fatal error.**
* `Feed.spent`, `Feed.acts_ended`: what a feed answers that has ended.
* `Feed.acts_ends`: **a fatal error ends a feed for good, and nothing else does.**
-/

namespace ObjectFeed

/-- The error says that an object is malformed. -/
def Error.isDecode : Error → Bool
  | .decode .. => true
  | _ => false

/-- The errors that end a feed. -/
def Error.isFatal (tolerance : Tolerance) : Error → Bool
  | .decode .. => tolerance = .none
  | .offset _ => true
  | _ => false

/-- The errors that a feed returns: failures of stores, and those that end it. -/
def Error.Returned (tolerance : Tolerance) (e : Error) : Prop :=
  e.isStore = true ∨ e.isFatal tolerance = true

theorem Error.Returned.isDecode_eq {e : Error} (h : e.Returned .all) : e.isDecode = false := by
  cases e with
  | decode => rcases h with h | h <;> cases h
  | _ => rfl

/-- The error that the stream of an object returns. -/
def InFlight.error? {σ τ : Type} [ObjectStore σ] (x : InFlight) (w : World σ τ) : Option Error :=
  match x.stream.next w.objects with
  | (some (.error e), _) => some e
  | _ => none

namespace Feed

theorem tolerance_congr {f g : Feed} (h : g.setup = f.setup) : g.tolerance = f.tolerance := by
  simp only [setup, Prod.mk.injEq] at h
  exact h.2.2.2.1

variable {σ τ : Type} [ObjectStore σ] [OffsetStore τ]

omit [ObjectStore σ] in
/-- The error that comes of looking up the offset of an object. -/
def lookupError? (f : Feed) (s : Summary) (w : World σ τ) : Option Error :=
  match f.identify s.key with
  | none => none
  | some k =>
    match w.cache.get w.offsets k with
    | (.error e, _) => some e
    | (.ok _, _) => none

/-- The error that a step of a listing returns, or that comes of looking up the offset of the object
that it lists. -/
def searchError? (f : Feed) (l : Listing) (w : World σ τ) : Option Error :=
  match l.step w.objects with
  | (.item s, _, _) => if f.filter.accepts s then f.lookupError? s w else none
  | (.failed e, _, _) => some (.store e)
  | _ => none

/-- The error that a moment's turn meets. -/
def Moment.met (m : Moment σ τ) : Option Error :=
  if m.feed.terminated then none
  else
    match m.feed.current, m.feed.pending, m.feed.listing with
    | some x, _, _ => x.error? m.world
    | none, some s, _ => m.feed.lookupError? s m.world
    | none, none, some l => m.feed.searchError? l m.world
    | none, none, none => none

variable {f : Feed} {w : World σ τ}

/-- A turn that goes on has met no fatal error. -/
def GoesOn (tolerance : Tolerance) (met : Option Error) (f : Feed) : Prop :=
  f.terminated = false ∧ ∀ e, met = some e → e.isFatal tolerance = false

/-- An outcome returns the error that its turn has met, and the feed ends if it is fatal. -/
def ComesOut (tolerance : Tolerance) (met : Option Error) (r : Option (Except Error Delivery))
    (f : Feed) : Prop :=
  (Answer.pulled r).error? = met ∧ f.terminated = met.any (·.isFatal tolerance) ∧
    ∀ e, met = some e → e.Returned tolerance

theorem goesOn_none {tolerance : Tolerance} (h : f.terminated = false) :
    GoesOn tolerance none f := ⟨h, by simp⟩

omit [ObjectStore σ] in
theorem take_met (h : f.terminated = false) (s : Summary) (w : World σ τ) :
    (f.take s w).Leads (fun _ g _ => GoesOn f.tolerance (f.lookupError? s w) g)
      (fun r g _ => ComesOut f.tolerance (f.lookupError? s w) r g) := by
  refine take_leads ?_ ?_ ?_ ?_
  · intro hidentity
    have hmet : f.lookupError? s w = none := by simp only [lookupError?, hidentity]
    rw [hmet]
    exact goesOn_none h
  · intro k o cache offsets hidentity hget
    have hmet : f.lookupError? s w = none := by simp only [lookupError?, hidentity, hget]
    rw [hmet]
    exact goesOn_none h
  · intro k e cache offsets hidentity hget
    have hmet : f.lookupError? s w = some (.store e) := by
      simp only [lookupError?, hidentity, hget]
    have hterm : (f.afterStoreError s e).terminated = false := by
      unfold afterStoreError
      split <;> exact h
    rw [hmet]
    exact ⟨rfl, hterm, by simp [Error.Returned, Error.isStore]⟩
  · intro k e cache offsets hidentity hget
    have hmet : f.lookupError? s w = some (.offset e) := by
      simp only [lookupError?, hidentity, hget]
    rw [hmet]
    exact ⟨rfl, rfl, by simp [Error.Returned, Error.isFatal]⟩

omit [OffsetStore τ] in
theorem advance_met (h : f.terminated = false) (x : InFlight) (w : World σ τ) :
    (f.advance x w).Leads (fun _ g _ => GoesOn f.tolerance (x.error? w) g)
      (fun r g _ => ComesOut f.tolerance (x.error? w) r g) := by
  refine advance_leads ?_ ?_ ?_
  · intro r stream objects hnext
    have hmet : x.error? w = none := by simp only [InFlight.error?, hnext]
    rw [hmet]
    exact ⟨rfl, h, by simp⟩
  · intro e stream objects hnext
    have hmet : x.error? w = some e := by simp only [InFlight.error?, hnext]
    rw [hmet]
    rcases RecordStream.error_of_next hnext with ⟨e', -, rfl, -⟩ | ⟨e', rfl⟩
    · -- the object may be read again
      have hterm :
          ({ f with current := none }.afterStoreError x.summary e').terminated = false := by
        unfold afterStoreError
        split <;> exact h
      exact ⟨rfl, hterm, by simp [Error.Returned, Error.isStore]⟩
    · refine afterStreamError_leads (by simp) (fun _ htol => ?_) (fun _ htol => ?_)
      · have htol : f.tolerance = .none := htol
        rw [htol]
        exact ⟨rfl, rfl, by simp [Error.Returned, Error.isFatal]⟩
      · have htol : f.tolerance = .all := htol
        rw [htol]
        exact ⟨h, by simp [Error.isFatal]⟩
  · intro stream objects hnext
    have hmet : x.error? w = none := by simp only [InFlight.error?, hnext]
    rw [hmet]
    exact goesOn_none h

theorem search_met (h : f.terminated = false) (l : Listing) (listed : Bool) (w : World σ τ) :
    (f.search l listed w).Leads (fun _ g _ => GoesOn f.tolerance (f.searchError? l w) g)
      (fun r g _ => ComesOut f.tolerance (f.searchError? l w) r g) := by
  refine search_leads ?_ ?_ ?_ ?_
  · intro s l' objects hstep
    have hmet : f.searchError? l w = if f.filter.accepts s then f.lookupError? s w else none := by
      simp only [searchError?, hstep]
    refine ⟨fun hacc => ?_, fun hacc => ?_⟩
    · rw [hmet, if_pos hacc]
      exact take_met (f := { f with listing := some l', lastKey := some s.key }) h s
        { w with objects }
    · rw [hmet, hacc]
      exact goesOn_none h
  · intro l' objects hstep
    have hmet : f.searchError? l w = none := by simp only [searchError?, hstep]
    rw [hmet]
    exact goesOn_none h
  · intro l' objects hstep
    have hmet : f.searchError? l w = none := by simp only [searchError?, hstep]
    rw [hmet]
    exact goesOn_none h
  · intro e l' objects hstep
    have hmet : f.searchError? l w = some (.store e) := by simp only [searchError?, hstep]
    rw [hmet]
    exact ⟨rfl, h, by simp [Error.Returned, Error.isStore]⟩

/-- **What becomes of the error that a turn meets**: it is returned, or the turn goes on. The feed
ends if it is fatal. -/
theorem turn_met (m : Moment σ τ) (h : m.feed.terminated = false) :
    m.turn.Leads (fun _ g _ => GoesOn m.feed.tolerance m.met g)
      (fun r g _ => ComesOut m.feed.tolerance m.met r g) := by
  have hmet : ∀ (c : Option InFlight) (p : Option Summary) (l : Option Listing),
      m.feed.current = c → m.feed.pending = p → m.feed.listing = l → m.met =
        match c, p, l with
        | some x, _, _ => x.error? m.world
        | none, some s, _ => m.feed.lookupError? s m.world
        | none, none, some l => m.feed.searchError? l m.world
        | none, none, none => none := by
    rintro _ _ _ rfl rfl rfl
    exact if_neg (by simp [h])
  refine turn_leads ?_ ?_ ?_ ?_ ?_ ?_
  · intro hterm
    rw [h] at hterm
    cases hterm
  · intro x _ hx
    rw [hmet _ _ _ hx rfl rfl]
    exact advance_met h x m.world
  · intro s _ hx hp
    rw [hmet _ _ _ hx hp rfl]
    exact take_met (f := { m.feed with pending := none }) h s m.world
  · intro l _ hx hp hl
    rw [hmet _ _ _ hx hp hl]
    exact search_met h l m.listed m.world
  · intro _ hx hp hl _
    rw [hmet _ _ _ hx hp hl]
    exact ⟨rfl, h, by simp⟩
  · intro _ hx hp hl _
    rw [hmet _ _ _ hx hp hl]
    exact goesOn_none h

section Ended

omit [ObjectStore σ] [OffsetStore τ] in
theorem ComesOut.terminated_eq {tolerance : Tolerance} {met : Option Error}
    {r : Option (Except Error Delivery)} (h : ComesOut tolerance met r f) :
    f.terminated = true ↔ ∃ e, met = some e ∧ e.isFatal tolerance = true := by
  rw [h.2.1]
  cases met <;> simp

/-- An ended feed stays as it is. -/
theorem turn_ended (h : f.terminated = true) (listed : Bool) (w : World σ τ) :
    f.turn listed w = .outcome none f w := by
  simp [turn, h]

theorem pull_ended (h : f.terminated = true) (limit : Nat) (listed : Bool) (w : World σ τ) :
    f.pull limit listed w = (none, f, w) := by
  cases limit with
  | zero => rfl
  | succ limit => simp [pull, turn_ended h]

/-- A turn ends a feed just when it meets a fatal error. -/
theorem terminated_turn (m : Moment σ τ) : m.turn.feed.terminated = true ↔
    m.feed.terminated = true ∨ ∃ e, m.met = some e ∧ e.isFatal m.feed.tolerance = true := by
  cases hterm : m.feed.terminated with
  | true =>
    have hturn : m.turn = .outcome none m.feed m.world := turn_ended hterm m.listed m.world
    rw [hturn]
    simpa [Turn.feed] using hterm
  | false =>
    have hleads := turn_met m hterm
    generalize m.turn = t at hleads
    cases t with
    | outcome r g w' => simpa [Turn.feed] using ComesOut.terminated_eq hleads
    | again listed g w' =>
      obtain ⟨hgoes, hmet⟩ := hleads
      refine ⟨fun hg => ?_, ?_⟩
      · rw [Turn.feed, hgoes] at hg
        cases hg
      · rintro (h | ⟨e, he, hfatal⟩)
        · cases h
        · rw [hmet e he] at hfatal
          cases hfatal

/-- **A feed has ended just when it has met a fatal error.** -/
theorem ended_path {f' : Feed} {w' : World σ τ} {ms : List (Moment σ τ)}
    (hpath : Path f w ms f' w') : f'.terminated = true ↔
      f.terminated = true ∨ ∃ m ∈ ms, ∃ e, m.met = some e ∧ e.isFatal f.tolerance = true := by
  induction hpath with
  | nil => simp
  | @turn f f' w w' ms listed _ ih =>
    let m : Moment σ τ := ⟨listed, f, w⟩
    have hturn := terminated_turn m
    have htol : m.turn.feed.tolerance = f.tolerance := tolerance_congr (setup_turn f listed w)
    have ih : f'.terminated = true ↔ m.turn.feed.terminated = true ∨
        ∃ m' ∈ ms, ∃ e, m'.met = some e ∧ e.isFatal m.turn.feed.tolerance = true := ih
    rw [ih, hturn, htol, or_assoc]
    refine or_congr Iff.rfl ?_
    simp [m]
  | held _ ih => exact ih
  | @close f f' w w' ms _ ih =>
    have htol : (f.close w).1.tolerance = f.tolerance := tolerance_congr (setup_close f w)
    have hterm : (f.close w).1.terminated = f.terminated := by
      rcases close_cases f w with ⟨-, hclose⟩ | ⟨x, -, hclose⟩
      · rw [hclose]
      · rw [hclose]
    rw [ih, htol, hterm]

end Ended

section Returned

/-- An ended feed reads no object. -/
def Idle (f : Feed) : Prop := f.terminated = true → f.current = none

theorem idle_turn (h : f.Idle) (listed : Bool) (w : World σ τ) :
    (f.turn listed w).Keeps fun g _ => g.Idle := by
  have hgoing : ∀ {g : Feed}, g.terminated = false → g.Idle := by
    intro g hg hterm
    rw [hg] at hterm
    cases hterm
  have hrefused : ∀ {g : Feed}, g.terminated = false → ∀ s e, (g.afterStoreError s e).Idle := by
    intro g hg s e
    unfold afterStoreError
    split <;> exact hgoing hg
  have htake : ∀ {g : Feed}, g.terminated = false → g.current = none →
      ∀ (s : Summary) (w : World σ τ),
        (g.take s w).Keeps fun g _ => g.Idle := by
    intro g hg hx s w
    exact take_leads (fun _ => hgoing hg) (fun _ _ _ _ _ _ => hgoing hg)
      (fun _ _ _ _ _ _ => hrefused hg s _) fun _ _ _ _ _ _ _ => hx
  refine turn_leads (fun _ => h) ?_ ?_ ?_ (fun _ _ _ _ _ => h) fun hterm _ _ _ _ => hgoing hterm
  · intro x hterm _
    refine advance_leads (fun _ _ _ _ => hgoing hterm) ?_ fun _ _ _ => hgoing hterm
    intro e stream objects _
    exact afterStreamError_leads (fun _ _ => hrefused (g := { f with current := none }) hterm _ _)
      (fun _ _ _ => rfl) fun _ _ => hgoing hterm
  · intro s hterm hx _
    exact htake (g := { f with pending := none }) hterm hx s w
  · intro l hterm hx _ _
    refine search_leads ?_ (fun _ _ _ => hgoing hterm) (fun _ _ _ => hgoing hterm)
      fun _ _ _ _ => hgoing hterm
    intro s l' objects _
    exact ⟨fun _ => htake (g := { f with listing := some l', lastKey := some s.key }) hterm hx s _,
      fun _ => hgoing hterm⟩

omit [OffsetStore τ] in
theorem idle_close (h : f.Idle) (w : World σ τ) : (f.close w).1.Idle := by
  rcases close_cases f w with ⟨-, hclose⟩ | ⟨x, -, hclose⟩
  · rw [hclose]
    exact h
  · rw [hclose]
    exact fun _ => rfl

theorem idle_path {f' : Feed} {w' : World σ τ} {ms : List (Moment σ τ)}
    (hpath : Path f w ms f' w') (h : f.Idle) : f'.Idle :=
  (hpath.keeps (I := fun g _ => g.Idle) (fun _ listed w hg => idle_turn hg listed w)
    (fun _ _ _ hg => hg) (fun _ w hg => idle_close hg w) h).1

/-- The error that a pull returns is a failure of a store, or else it ends the feed. -/
theorem pull_returned (limit : Nat) (f : Feed) (w : World σ τ) {e : Error}
    (h : (f.pull limit false w).1 = some (.error e)) :
    e.Returned f.tolerance ∧
      (f.pull limit false w).2.1.terminated = e.isFatal f.tolerance := by
  refine pull_leads (P := fun _ _ g (_ : World σ τ) => g.tolerance = f.tolerance)
    (Q := fun r g _ => ∀ e, r = some (.error e) →
      e.Returned f.tolerance ∧ g.terminated = e.isFatal f.tolerance)
    ?_ (by simp) limit (f := f) (w := w) rfl e h
  · intro _ listed g w htol
    cases hterm : g.terminated with
    | true =>
      rw [turn_ended hterm]
      simp [Turn.Leads]
    | false =>
      have hleads := turn_met ⟨listed, g, w⟩ hterm
      have hsetup := setup_turn g listed w
      rw [show (Moment.mk listed g w).turn = g.turn listed w from rfl] at hleads
      generalize g.turn listed w = t at hleads hsetup
      cases t with
      | again listed' g' w' => exact (tolerance_congr hsetup).trans htol
      | outcome r g' w' =>
        obtain ⟨hreturned, hends, hall⟩ := hleads
        rintro e rfl
        have hmet : (Moment.mk listed g w).met = some e := hreturned.symm
        rw [hmet] at hends hall
        rw [← htol]
        exact ⟨hall e rfl, hends⟩

/-- The error that is held back is one that a pull has returned. -/
def HoldsReturned (f : Feed) : Prop := ∀ e, f.deferred = some e → e.Returned f.tolerance

theorem collect_returned (limit n : Nat) (batch : List Delivery) (h : f.HoldsReturned)
    (w : World σ τ) : (f.collect limit n batch w).2.1.HoldsReturned ∧
      ∀ e, (f.collect limit n batch w).1 = .error e → e.Returned f.tolerance := by
  induction n generalizing batch f w with
  | zero => exact ⟨h, by simp [collect]⟩
  | succ n ih =>
    have hreturned := fun e => pull_returned limit f w (e := e)
    have htol := tolerance_congr (setup_pull limit false f w)
    have hdeferred := deferred_pull limit false f w
    unfold collect
    generalize f.pull limit false w = out at hreturned htol hdeferred
    obtain ⟨r, f', w'⟩ := out
    have h' : f'.HoldsReturned := by
      intro e he
      rw [htol]
      exact h e (hdeferred.symm.trans he)
    rcases r with _ | e | d
    · exact ⟨h', by simp⟩
    · simp only
      obtain ⟨he, -⟩ := hreturned e rfl
      split
      · refine ⟨h', ?_⟩
        rintro _ ⟨⟩
        exact he
      · refine ⟨?_, by simp⟩
        rintro _ ⟨⟩
        rw [show ({ f' with deferred := some e } : Feed).tolerance = f.tolerance from htol]
        exact he
    · have hrest := ih (f := f') (batch ++ [d]) h' w'
      rw [htol] at hrest
      exact hrest

theorem poll_returned (limit n : Nat) (h : f.HoldsReturned) (w : World σ τ) :
    (f.poll limit n w).2.1.HoldsReturned ∧
      ∀ e, (f.poll limit n w).1 = .error e → e.Returned f.tolerance := by
  unfold poll
  cases hdeferred : f.deferred with
  | none => exact collect_returned limit n [] h w
  | some e =>
    refine ⟨by simp [HoldsReturned], ?_⟩
    rintro _ ⟨⟩
    exact h e hdeferred

variable (limit : Feed → World σ τ → Nat)

theorem act_returned (a : Act) (h : f.HoldsReturned) (w : World σ τ) :
    (act limit a f w).2.1.HoldsReturned ∧
      ∀ e, (act limit a f w).1.error? = some e → e.Returned f.tolerance := by
  have hpoll : ∀ (n : Nat) (e : Error),
      (Answer.polled (f.poll (limit f w) n w).1).error? = some e → e.Returned f.tolerance := by
    intro n e he
    refine (poll_returned (limit f w) n h w).2 e ?_
    generalize (f.poll (limit f w) n w).1 = r at he
    cases r with
    | ok batch => cases he
    | error e' => simpa [Answer.error?] using he
  cases a with
  | next =>
    refine ⟨fun e he => ?_, fun e he => ?_⟩
    · have htol := tolerance_congr (setup_pull (limit f w) false f w)
      have hdeferred := deferred_pull (limit f w) false f w
      rw [show (act limit .next f w).2.1 = (f.pull (limit f w) false w).2.1 from rfl] at he ⊢
      rw [htol]
      exact h e (hdeferred.symm.trans he)
    · refine (pull_returned (limit f w) f w ?_).1
      have he : (Answer.pulled (f.pull (limit f w) false w).1).error? = some e := he
      generalize (f.pull (limit f w) false w).1 = r at he
      rcases r with _ | e' | d
      · cases he
      · simpa [Answer.error?] using he
      · cases he
  | poll n => exact ⟨(poll_returned (limit f w) n h w).1, hpoll n⟩
  | pollBatch =>
    exact ⟨(poll_returned (limit f w) f.maxPollRecords h w).1, hpoll f.maxPollRecords⟩
  | close =>
    refine ⟨?_, by simp [act, Answer.error?]⟩
    rw [show (act limit .close f w).2.1 = (f.close w).1 from rfl]
    rcases close_cases f w with ⟨-, hclose⟩ | ⟨x, -, hclose⟩
    · rw [hclose]
      exact h
    · rw [hclose]
      exact h

/-- All errors that acts return are failures of stores or have ended the feed. -/
theorem acts_returned (as : List Act) (h : f.HoldsReturned) (w : World σ τ) :
    ∀ r ∈ (acts limit as f w).1, ∀ e, r.error? = some e → e.Returned f.tolerance := by
  induction as generalizing f w with
  | nil => simp [acts]
  | cons a as ih =>
    obtain ⟨hafter, hfirst⟩ := act_returned limit a h w
    have htol := tolerance_congr (act_path limit a f w).setup_eq.1
    have hrest := ih hafter (act limit a f w).2.2
    rw [htol] at hrest
    exact List.forall_mem_cons.2 ⟨hfirst, hrest⟩

end Returned

/-- What a feed answers that has ended. The error that it holds back is returned by the first poll,
and there is nothing else to return. -/
def spent : (held : Option Error) → List Act → List Answer
  | _, [] => []
  | held, .next :: as => .pulled none :: spent held as
  | held, .close :: as => .closed :: spent held as
  | some e, .poll _ :: as => .polled (.error e) :: spent none as
  | some e, .pollBatch :: as => .polled (.error e) :: spent none as
  | none, .poll _ :: as => .polled (.ok []) :: spent none as
  | none, .pollBatch :: as => .polled (.ok []) :: spent none as

/-- The error that is held back is returned at most once. -/
theorem length_errors_spent (held : Option Error) (as : List Act) :
    ((spent held as).filterMap Answer.error?).length ≤ held.toList.length := by
  induction as generalizing held with
  | nil => exact Nat.zero_le _
  | cons a as ih =>
    cases a with
    | next => exact ih held
    | close => exact ih held
    | poll n =>
      cases held with
      | none => exact ih none
      | some e => exact Nat.succ_le_succ (ih none)
    | pollBatch =>
      cases held with
      | none => exact ih none
      | some e => exact Nat.succ_le_succ (ih none)

/-- An ended feed returns what it holds back, or else nothing. -/
theorem poll_ended (h : f.terminated = true) (limit n : Nat) (w : World σ τ) :
    f.poll limit n w =
      (f.deferred.elim (.ok []) .error, { f with deferred := none }, w) := by
  unfold poll
  cases hdeferred : f.deferred with
  | some e => rfl
  | none =>
    have hf : { f with deferred := none } = f := by rw [← hdeferred]
    rw [hf]
    cases n with
    | zero => rfl
    | succ n => simp [collect, pull_ended h]

section Stop

variable (limit : Feed → World σ τ → Nat)

theorem deferred_start {d : Directories} {c : FeedConfig} {failed : KeySet}
    (hf : start d c failed = .ok f) : f.deferred = none := by
  obtain ⟨template, settings, -, -, rfl⟩ := start_eq_ok_iff.1 hf
  rfl

/-- **An ended feed has only the error to return that it holds back**, and leaves the stores and the
cache alone. -/
theorem acts_ended (as : List Act) (h : f.terminated = true) (hx : f.current = none)
    (w : World σ τ) :
    (acts limit as f w).1 = spent f.deferred as ∧
      (acts limit as f w).2.1.terminated = true ∧ (acts limit as f w).2.2 = w := by
  induction as generalizing f with
  | nil => exact ⟨rfl, h, rfl⟩
  | cons a as ih =>
    unfold acts
    cases a with
    | next =>
      simp only [act, pull_ended h]
      obtain ⟨hanswers, hend⟩ := ih h hx
      exact ⟨congrArg (Answer.pulled none :: ·) hanswers, hend⟩
    | close =>
      have hclose : f.close w = (f, w) := by simp [close, hx]
      simp only [act, hclose]
      obtain ⟨hanswers, hend⟩ := ih h hx
      exact ⟨congrArg (Answer.closed :: ·) hanswers, hend⟩
    | poll n =>
      simp only [act, poll_ended h]
      obtain ⟨hanswers, hend⟩ := ih (f := { f with deferred := none }) h hx
      refine ⟨?_, hend⟩
      cases f.deferred <;> exact congrArg _ hanswers
    | pollBatch =>
      simp only [act, poll_ended h]
      obtain ⟨hanswers, hend⟩ := ih (f := { f with deferred := none }) h hx
      refine ⟨?_, hend⟩
      cases f.deferred <;> exact congrArg _ hanswers

/-- **A fatal error ends a feed for good, and nothing else does**, whatever the stores answer. From
then on it returns the error that it holds back at most once and otherwise nothing, and asks no
store for anything. A failure of a store that is returned ends no feed, and a feed that tolerates
malformed objects does not return that one is malformed. -/
theorem acts_ends {d : Directories} {c : FeedConfig} {failed : KeySet}
    (hf : start d c failed = .ok f) (w : World σ τ) (as : List Act) :
    let run := acts limit as f w
    (run.2.1.terminated = true ↔
      ∃ m ∈ moments limit as f w, ∃ e, m.met = some e ∧ e.isFatal c.tolerance = true) ∧
      (run.2.1.terminated = true → ∀ more : List Act,
        let later := acts limit more run.2.1 run.2.2
        later.1 = spent run.2.1.deferred more ∧
          (later.1.filterMap Answer.error?).length ≤ 1 ∧
          later.2.1.terminated = true ∧ later.2.2 = run.2.2) ∧
      (∀ e f' w', act limit .next run.2.1 run.2.2 = (.pulled (some (.error (.store e))), f', w') →
        f'.terminated = false) ∧
      (c.tolerance = .all → ∀ r ∈ run.1, ∀ e, r.error? = some e → e.isDecode = false) := by
  intro run
  have hfresh := fresh_start hf
  have htol := tolerance_start hf
  have hpath := acts_path limit as f w
  have hrun : run.2.1.tolerance = c.tolerance := (tolerance_congr hpath.setup_eq.1).trans htol
  refine ⟨?_, ?_, ?_, ?_⟩
  · rw [ended_path hpath, hfresh.terminated, htol]
    simp
  · intro hterm more later
    have hcurrent := idle_path hpath (fun _ => hfresh.current) hterm
    obtain ⟨hanswers, hends, hworld⟩ := acts_ended limit more hterm hcurrent run.2.2
    refine ⟨hanswers, ?_, hends, hworld⟩
    rw [hanswers]
    refine (length_errors_spent run.2.1.deferred more).trans ?_
    cases run.2.1.deferred <;> simp
  · intro e f' w' hnext
    have hpull := pull_returned (limit run.2.1 run.2.2) run.2.1 run.2.2 (e := .store e) ?_
    · have hf' : (run.2.1.pull (limit run.2.1 run.2.2) false run.2.2).2.1 = f' :=
        congrArg (fun out => out.2.1) hnext
      rw [← hf', hpull.2]
      rfl
    · exact Answer.pulled.inj (congrArg Prod.fst hnext)
  · intro hall r hr e he
    have hheld : f.HoldsReturned := by
      intro e he
      rw [deferred_start hf] at he
      cases he
    have hreturned := acts_returned limit as hheld w r hr e he
    rw [htol, hall] at hreturned
    exact hreturned.isDecode_eq

end Stop

theorem start_sampleStrict : start ⟨[], [], ""⟩ { sampleConfig with tolerance := .none } ∅ =
    .ok { sampleFeed with tolerance := .none } :=
  start_eq_ok_iff.2 ⟨_, .bytes 2, by cbv, by rfl, by rfl⟩

/-- Four records come before the failing read, whose error is held back. -/
theorem acts_ends_sample :
    let f := { sampleFeed with tolerance := .none }
    let run := acts turnLimit [.poll 10] f sampleWorld
    run.2.1.terminated = true ∧
      (∃ m ∈ moments turnLimit [.poll 10] f sampleWorld,
        ∃ e, m.met = some e ∧ e.isFatal .none = true) ∧
      (acts turnLimit [.next, .poll 3, .pollBatch, .close] run.2.1 run.2.2).1 =
        [.pulled none, .polled (.error (.decode "c" (.readBytes "reset"))), .polled (.ok []),
          .closed] := by
  have hmain := acts_ends turnLimit start_sampleStrict sampleWorld [.poll 10]
  dsimp only at hmain ⊢
  have hterm : (acts turnLimit [.poll 10] { sampleFeed with tolerance := .none }
      sampleWorld).2.1.terminated = true := by cbv
  have hheld : (acts turnLimit [.poll 10] { sampleFeed with tolerance := .none }
      sampleWorld).2.1.deferred = some (.decode "c" (.readBytes "reset")) := by cbv
  obtain ⟨hiff, hstays, -⟩ := hmain
  obtain ⟨hanswers, -⟩ := hstays hterm [.next, .poll 3, .pollBatch, .close]
  rw [hheld] at hanswers
  exact ⟨hterm, hiff.1 hterm, hanswers⟩

end Feed

end ObjectFeed
