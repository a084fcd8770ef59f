import ObjectFeed.Proofs.Auditing
import ObjectFeed.Proofs.Ending

/-!
# Bodies on loan

The body of an object is on loan from the moment it is handed out until it is given back. A feed
never has more than one body on loan, and gives each of them back once, whatever it is asked for,
whatever the bodies are and whatever fails in between.

* `RecordStream.loan?`, `Feed.loan?`: the body that is on loan.
* `Audited.Lends`: **all bodies but that one have been given back once**, each of them before the
  next one was handed out.
* `RecordStream.lends_next`, `Feed.lends_turn`, `Feed.lends_path`: streams, turns and acts keep it.
* `Feed.AtRest`: the occasions on which no object is in flight.
* `Feed.Step`, `Feed.steps`: acts, and changes of the stores between them.
* `Feed.loans_returned`: **no body is lost** in any run.
-/

namespace ObjectFeed

/-- The key of the body that the stream still has to give back. -/
def RecordStream.loan? (s : RecordStream) : Option String :=
  match s.state with
  | .reading d => if d.holdsBody then some s.objectKey else none
  | _ => none

/-- The key of the body that the feed still has to give back. -/
def Feed.loan? (f : Feed) : Option String := f.current.bind (·.stream.loan?)

/-- No body was handed out. -/
def Access.isRefused : Access → Bool
  | .refused _ => true
  | _ => false

/-- Each body is given back before the next one is handed out, and one may still be out. -/
def Access.loans (returned : List String) (out : Option String) : List Access :=
  returned.flatMap (fun key => [.handed key, .released]) ++ out.toList.map .handed

/-- Bodies that are handed out and not given back. -/
def MemoryObjects.lent (s : MemoryObjects) : Int := s.opened - s.closed

namespace MemoryObjects

/-- A fetch counts as opened if a body is handed out. -/
theorem counts_fetch (s : MemoryObjects) (bucket key : String) :
    (s.fetch bucket key).2.opened =
      s.opened + (s.fetch bucket key).1.toOption.toList.length ∧
    (s.fetch bucket key).2.closed = s.closed := by
  unfold fetch
  simp only
  split
  · exact ⟨rfl, rfl⟩
  · split
    · exact ⟨rfl, rfl⟩
    · exact ⟨rfl, rfl⟩

end MemoryObjects

namespace Audited

/-- Since the start all bodies have been given back once, each of them before the next one was
handed out, but for the one that is out. So say the accesses and the counts. -/
def Lends (start : MemoryObjects) (out : Option String) (s : Audited MemoryObjects) : Prop :=
  ∃ returned : List String,
    s.accesses.filter (!·.isRefused) = Access.loans returned out ∧
    s.store.opened = start.opened + returned.length + out.toList.length ∧
    s.store.closed = start.closed + returned.length

variable {start : MemoryObjects} {out : Option String} {key : String} {s s' : Audited MemoryObjects}

theorem Lends.refl (start : MemoryObjects) : Lends start none ⟨start, []⟩ := ⟨[], rfl, rfl, rfl⟩

/-- No more than one body is on loan. -/
theorem Lends.lent (h : s.Lends start out) : s.store.lent = start.lent + out.toList.length := by
  obtain ⟨returned, -, hopened, hclosed⟩ := h
  unfold MemoryObjects.lent
  omega

theorem Lends.list (h : s.Lends start out) (r : ListRequest) :
    (ObjectStore.list s r).2.Lends start out := h

/-- A body that is handed out is on loan, and a fetch that is refused hands none out. -/
theorem Lends.fetch (h : s.Lends start none) (bucket key : String) :
    (ObjectStore.fetch s bucket key).2.Lends start
      ((ObjectStore.fetch s bucket key).1.toOption.map fun _ => key) := by
  obtain ⟨returned, haccesses, hopened, hclosed⟩ := h
  have hcounts := s.store.counts_fetch bucket key
  show (s.fetch bucket key).2.Lends start ((s.fetch bucket key).1.toOption.map fun _ => key)
  unfold Audited.fetch
  rw [show ObjectStore.fetch s.store bucket key = s.store.fetch bucket key from rfl]
  generalize s.store.fetch bucket key = out at hcounts
  obtain ⟨answer, store⟩ := out
  obtain ⟨hopened', hclosed'⟩ := hcounts
  cases answer with
  | ok body =>
    refine ⟨returned, ?_, ?_, ?_⟩
    · simp only [note, List.filter_append, haccesses]
      simp [Access.loans, Access.isRefused, Except.toOption]
    · exact hopened'.trans (congrArg (· + 1) hopened)
    · exact hclosed'.trans hclosed
  | error e =>
    refine ⟨returned, ?_, hopened'.trans hopened, hclosed'.trans hclosed⟩
    simp only [note, List.filter_append, haccesses]
    simp [Access.isRefused, Except.toOption]

/-- The body that is on loan is given back. -/
theorem Lends.release (h : s.Lends start (some key)) :
    (ObjectStore.release s).Lends start none := by
  obtain ⟨returned, haccesses, hopened, hclosed⟩ := h
  refine ⟨returned ++ [key], ?_, ?_, ?_⟩
  · rw [accesses_release, List.filter_append, haccesses]
    simp [Access.loans, Access.isRefused]
  · show s.store.opened = _
    rw [hopened, List.length_append]
    rfl
  · show s.store.closed + 1 = _
    rw [hclosed, List.length_append]
    rfl

end Audited

section Streams

/-- A decoder holds its body as long as it is used. -/
theorem Decoder.holdsBody_next (d : Decoder) : d.next.2.holdsBody = d.holdsBody := by
  cases d <;> rfl

theorem Decoder.holdsBody_pull {skip n : Nat} {d d' : Decoder} {r : Record}
    (h : d.pull skip = (.record r d', n)) : d'.holdsBody = d.holdsBody := by
  induction skip generalizing d n with
  | zero =>
    have hkept := d.holdsBody_next
    rw [pull] at h
    generalize d.next = out at h hkept
    rcases out with ⟨e | _ | r', d₁⟩
    · cases h
    · cases h
    · cases h
      exact hkept
  | succ skip ih =>
    have hkept := d.holdsBody_next
    rw [pull] at h
    generalize d.next = out at h hkept
    rcases out with ⟨e | _ | r', d₁⟩
    · cases h
    · cases h
    · obtain ⟨⟨p, m⟩, hpull⟩ : ∃ out, d₁.pull skip = out := ⟨_, rfl⟩
      simp only [hpull, Prod.mk.injEq] at h
      obtain ⟨rfl, -⟩ := h
      exact (ih hpull).trans hkept

namespace RecordStream

variable {start : MemoryObjects} {x : RecordStream} {s : Audited MemoryObjects}

theorem loan_of_reading {d : Decoder} (h : x.state = .reading d) :
    x.loan? = if d.holdsBody then some x.objectKey else none := by
  simp only [loan?, h]

theorem loan_of_pending (h : x.state = .pending) : x.loan? = none := by
  simp only [loan?, h]

theorem loan_of_closed (h : x.state = .closed) : x.loan? = none := by
  simp only [loan?, h]

/-- What a stream still has to give back, it gives back once. -/
theorem lends_giveBack (h : s.Lends start x.loan?) : (giveBack x.state s).Lends start none := by
  cases hstate : x.state with
  | pending => rwa [loan_of_pending hstate] at h
  | closed => rwa [loan_of_closed hstate] at h
  | reading d =>
    rw [loan_of_reading hstate] at h
    simp only [giveBack]
    cases hholds : d.holdsBody with
    | true =>
      rw [hholds] at h
      exact h.release
    | false =>
      rw [hholds] at h
      exact h

/-- An object whose decoder cannot be opened is given back at once, and so is one that has been
copied. -/
theorem lends_open (h : s.Lends start x.loan?) :
    (x.open s).2.2.Lends start (x.open s).2.1.loan? := by
  unfold RecordStream.open
  split
  · rename_i hstate
    rw [loan_of_pending hstate] at h
    have hfetched := h.fetch x.bucket x.objectKey
    generalize ObjectStore.fetch s x.bucket x.objectKey = out at hfetched
    obtain ⟨answer, s'⟩ := out
    cases answer with
    | error e => exact hfetched
    | ok body =>
      have hout : s'.Lends start (some x.objectKey) := hfetched
      simp only
      -- the decoder may refuse the body, and it may have copied it
      split
      · exact hout.release
      · rename_i d _
        cases hholds : d.holdsBody with
        | true => simpa [loan?, hholds] using hout
        | false => simpa [loan?, hholds] using hout.release
  · exact h

theorem lends_read (h : s.Lends start x.loan?) :
    (x.read s).2.2.Lends start (x.read s).2.1.loan? := by
  unfold read
  split
  · rename_i d hstate
    have hback := lends_giveBack h
    obtain ⟨⟨p, n⟩, hpull⟩ : ∃ out, d.pull (x.resumeFrom - x.offset.count) = out := ⟨_, rfl⟩
    rw [hpull]
    cases p with
    | record r d' =>
      have hholds := Decoder.holdsBody_pull hpull
      rw [loan_of_reading hstate, ← hholds] at h
      exact h
    | ended | failed => exact hback
  · exact h

/-- **A stream gives its body back once**, at the end of the object or when that fails. -/
theorem lends_next (h : s.Lends start x.loan?) :
    (x.next s).2.2.Lends start (x.next s).2.1.loan? := by
  have hopen := lends_open h
  unfold next
  generalize x.open s = out at hopen
  obtain ⟨failure, x', s'⟩ := out
  cases failure with
  | some e => exact hopen
  | none => exact lends_read hopen

variable {σ : Type} [ObjectStore σ]

theorem loan_open (x : RecordStream) (store : σ) :
    (x.open store).1 = none ∨ (x.open store).2.1.loan? = none := by
  unfold RecordStream.open
  split
  · generalize ObjectStore.fetch store x.bucket x.objectKey = out
    obtain ⟨answer, store'⟩ := out
    cases answer with
    | error e => exact .inr rfl
    | ok body =>
      simp only
      split
      · exact .inr rfl
      · exact .inl rfl
  · exact .inl rfl

theorem loan_read {x : RecordStream} (hx : x.state ≠ .pending) (store : σ) :
    (∃ r, (x.read store).1 = some (.ok r)) ∨ (x.read store).2.1.loan? = none := by
  unfold read
  split
  · generalize Decoder.pull _ _ = out
    obtain ⟨p, n⟩ := out
    cases p with
    | record r d => exact .inl ⟨r, rfl⟩
    | ended | failed => exact .inr rfl
  · rename_i hreading
    refine .inr ?_
    cases hstate : x.state with
    | pending => exact (hx hstate).elim
    | reading d => exact (hreading d hstate).elim
    | closed => exact loan_of_closed hstate

/-- A stream that returns no record has nothing to give back. -/
theorem loan_next (x : RecordStream) (store : σ) :
    (∃ r, (x.next store).1 = some (.ok r)) ∨ (x.next store).2.1.loan? = none := by
  have hopen := x.loan_open store
  have hopened := (x.state_open store).1
  unfold next
  generalize x.open store = out at hopen hopened
  obtain ⟨failure, x', store'⟩ := out
  cases failure with
  | some e => exact .inr (hopen.resolve_left (by simp))
  | none => exact loan_read hopened store'

end RecordStream

end Streams

namespace Feed

variable {σ τ : Type}

theorem loan_of_idle {f : Feed} (h : f.current = none) : f.loan? = none := by
  simp [loan?, h]

theorem loan_of_reading {f : Feed} {x : InFlight} (h : f.current = some x) :
    f.loan? = x.stream.loan? := by
  simp [loan?, h]

section Turns

variable [ObjectStore σ] [OffsetStore τ] {f : Feed} {w : World σ τ}

theorem current_afterStoreError (f : Feed) (s : Summary) (e : StoreError) :
    (f.afterStoreError s e).current = f.current := by
  unfold afterStoreError
  split <;> rfl

omit [ObjectStore σ] in
/-- An object that is taken up has not been fetched. -/
theorem loan_take (hx : f.current = none) (s : Summary) (w : World σ τ) :
    (f.take s w).Keeps fun g _ => g.loan? = none := by
  refine take_leads (fun _ => loan_of_idle hx) (fun _ _ _ _ _ _ => rfl) ?_
    fun _ _ _ _ _ _ => loan_of_idle hx
  intro k e cache offsets _ _
  exact loan_of_idle ((current_afterStoreError f s e).trans hx)

/-- **No body is on loan when a turn goes on or has an outcome that is no record.** -/
theorem loan_turn (h : f.Idle) (listed : Bool) (w : World σ τ) :
    (f.turn listed w).Leads (fun _ g _ => g.loan? = none)
      (fun r g _ => (∃ d, r = some (.ok d)) ∨ g.loan? = none) := by
  refine turn_leads (fun hterm => .inr (loan_of_idle (h hterm))) ?_ ?_ ?_
    (fun _ hx _ _ _ => .inr (loan_of_idle hx)) fun _ hx _ _ _ => loan_of_idle hx
  · intro x _ _
    refine advance_leads (fun r stream _ _ => .inl ⟨_, rfl⟩) ?_ fun _ _ _ => rfl
    intro e stream objects _
    refine afterStreamError_leads (fun e' _ => .inr ?_) (fun _ _ => .inr rfl) fun _ _ => rfl
    exact loan_of_idle (current_afterStoreError { f with current := none } x.summary e')
  · intro s _ hx _
    exact (loan_take (f := { f with pending := none }) hx s w).mono (fun _ _ _ hg => hg)
      fun _ _ _ hg => .inr hg
  · intro l _ hx _ _
    refine search_leads ?_ (fun _ _ _ => loan_of_idle hx) (fun _ _ _ => loan_of_idle hx)
      fun _ _ _ _ => .inr (loan_of_idle hx)
    intro s l' objects _
    refine ⟨fun _ => ?_, fun _ => loan_of_idle hx⟩
    exact (loan_take (f := { f with listing := some l', lastKey := some s.key }) hx s _).mono
      (fun _ _ _ hg => hg) fun _ _ _ hg => .inr hg

/-- After a pull that returns no record no body is on loan. -/
theorem loan_pull {limit : Nat} (hlimit : 0 < limit) (h : f.Idle) (w : World σ τ) :
    (∃ d, (f.pull limit false w).1 = some (.ok d)) ∨
      (f.pull limit false w).2.1.loan? = none := by
  refine pull_leads (P := fun limit _ g (_ : World σ τ) =>
      g.Idle ∧ (0 < limit ∨ g.loan? = none))
    (Q := fun r g _ => (∃ d, r = some (.ok d)) ∨ g.loan? = none) ?_ ?_ limit ⟨h, .inl hlimit⟩
  -- turns only run out after one of them has gone on
  · intro limit listed g w hg
    have hidle := idle_turn hg.1 listed w
    have hloan := loan_turn hg.1 listed w
    generalize g.turn listed w = t at hidle hloan
    cases t with
    | outcome r g' w' => exact hloan
    | again listed' g' w' => exact ⟨hidle, .inr hloan⟩
  · intro listed g w hg
    exact .inr (hg.2.resolve_left (Nat.lt_irrefl 0))

/-- The pull that ends a batch early is one that returns no record. -/
theorem loan_collect {limit : Nat} (hlimit : 0 < limit) (n : Nat) (batch : List Delivery)
    (h : f.Idle) (hheld : f.deferred = none) (w : World σ τ)
    (hmet : (Answer.polled (f.collect limit n batch w).1).error?.isSome = true ∨
      (f.collect limit n batch w).2.1.deferred.isSome = true) :
    (f.collect limit n batch w).2.1.loan? = none := by
  induction n generalizing batch f w with
  | zero => simp [collect, Answer.error?, hheld] at hmet
  | succ n ih =>
    have hloan := loan_pull hlimit h w
    have hdeferred := deferred_pull limit false f w
    have hidle := idle_path (pull_path limit false f w) h
    unfold collect at hmet ⊢
    generalize f.pull limit false w = out at hloan hdeferred hidle hmet
    obtain ⟨r, f', w'⟩ := out
    have hnone : (∀ d, r ≠ some (.ok d)) → f'.loan? = none := by
      intro hr
      exact hloan.resolve_left (not_exists.2 hr)
    rcases r with _ | e | d
    · exact hnone (by simp)
    · simp only
      split
      · exact hnone (by simp)
      · exact hnone (by simp)
    · -- the batch goes on after a record
      exact ih (batch ++ [d]) hidle (hdeferred.trans hheld) w' hmet

theorem loan_poll {limit : Nat} (hlimit : 0 < limit) (n : Nat) (h : f.Idle)
    (hheld : f.deferred = none) (w : World σ τ)
    (hmet : (Answer.polled (f.poll limit n w).1).error?.isSome = true ∨
      (f.poll limit n w).2.1.deferred.isSome = true) : (f.poll limit n w).2.1.loan? = none := by
  have hcollect := loan_collect hlimit n [] h hheld w
  simp only [poll, hheld] at hmet ⊢
  exact hcollect hmet

/-- The occasions on which no object is in flight after an act. -/
inductive AtRest (f : Feed) : Act → Answer → Feed → Prop where
  /-- No object is being read. -/
  | idle {a : Act} {r : Answer} {f' : Feed} (h : f'.current = none) : AtRest f a r f'
  /-- The feed has been closed. -/
  | closed {r : Answer} {f' : Feed} : AtRest f .close r f'
  /-- The next record was asked for, and there was an error or nothing. -/
  | pulled {r : Option (Except Error Delivery)} {f' : Feed} (h : ∀ d, r ≠ some (.ok d)) :
      AtRest f .next (.pulled r) f'
  /-- A batch was asked for when no error was held back, and an error was returned. A poll that
  returns an error that was held back has not met one. -/
  | returned {a : Act} {r : Answer} {f' : Feed} (hheld : f.deferred = none)
      (h : r.error?.isSome = true) : AtRest f a r f'
  /-- A batch was asked for when no error was held back, and one is held back now. -/
  | held {a : Act} {r : Answer} {f' : Feed} (hheld : f.deferred = none)
      (h : f'.deferred.isSome = true) : AtRest f a r f'
  /-- The feed has ended. -/
  | ended {a : Act} {r : Answer} {f' : Feed} (h : f'.terminated = true) : AtRest f a r f'

omit [OffsetStore τ] in
theorem current_close (f : Feed) (w : World σ τ) :
    (f.close w).1.current = none := by
  rcases close_cases f w with ⟨hx, hclose⟩ | ⟨x, -, hclose⟩
  · rw [hclose]
    exact hx
  · rw [hclose]

section Acts

variable {limit : Feed → World σ τ → Nat} (hlimit : ∀ f w, 0 < limit f w)

include hlimit

/-- After an act that meets an error no body is on loan. -/
theorem loan_met (a : Act) (h : f.Idle) (hheld : f.deferred = none) (w : World σ τ)
    (hmet : (act limit a f w).1.error?.isSome = true ∨
      (act limit a f w).2.1.deferred.isSome = true) : (act limit a f w).2.1.loan? = none := by
  cases a with
  | next =>
    refine (loan_pull (hlimit f w) h w).resolve_left ?_
    rintro ⟨d, hd⟩
    have hdeferred := (deferred_pull (limit f w) false f w).trans hheld
    simp [act, hd, hdeferred, Answer.error?] at hmet
  | poll n => exact loan_poll (hlimit f w) n h hheld w hmet
  | pollBatch => exact loan_poll (hlimit f w) f.maxPollRecords h hheld w hmet
  | close => exact loan_of_idle (current_close f w)

/-- **On all these occasions no body is on loan.** -/
theorem loan_atRest {a : Act} (h : f.Idle) (w : World σ τ)
    (hrest : AtRest f a (act limit a f w).1 (act limit a f w).2.1) :
    (act limit a f w).2.1.loan? = none := by
  have hmet := fun hheld => loan_met hlimit a h hheld w
  generalize hr : (act limit a f w).1 = r at hrest hmet
  generalize hf' : (act limit a f w).2.1 = f' at hrest hmet ⊢
  cases hrest with
  | idle hx => exact loan_of_idle hx
  | closed =>
    rw [← hf']
    exact loan_of_idle (current_close f w)
  | pulled hnone =>
    rw [← hf']
    refine (loan_pull (hlimit f w) h w).resolve_left ?_
    rintro ⟨d, hd⟩
    exact hnone d (hd.symm.trans (Answer.pulled.inj hr)).symm
  | returned hheld herror => exact hmet hheld (.inl herror)
  | held hheld hheld' => exact hmet hheld (.inr hheld')
  | ended hterm =>
    have hidle := idle_path (act_path limit a f w) h
    rw [hf'] at hidle
    exact loan_of_idle (hidle hterm)

end Acts

end Turns

section Lends

variable [OffsetStore τ] {start : MemoryObjects} {f : Feed} {w : AuditedWorld MemoryObjects τ}

omit [OffsetStore τ] in
theorem lends_of_idle (h : w.objects.Lends start none) (hx : f.current = none) :
    w.objects.Lends start f.loan? := by
  rwa [loan_of_idle hx]

theorem lends_take (h : w.objects.Lends start none) (hx : f.current = none) (s : Summary) :
    (f.take s w).Keeps fun g w => w.objects.Lends start g.loan? := by
  refine take_leads (fun _ => lends_of_idle h hx) (fun _ _ _ _ _ _ => h) ?_
    fun _ _ _ _ _ _ => lends_of_idle h hx
  intro k e cache offsets _ _
  exact lends_of_idle h ((current_afterStoreError f s e).trans hx)

/-- **A turn gives back what it takes on loan**, or the object that is being read holds it. -/
theorem lends_turn (h : w.objects.Lends start f.loan?) (listed : Bool) :
    (f.turn listed w).Keeps fun g w => w.objects.Lends start g.loan? := by
  refine turn_leads (fun _ => h) ?_ ?_ ?_ (fun _ _ _ _ _ => h) fun _ hx _ _ _ => ?_
  · intro x _ hx
    rw [loan_of_reading hx] at h
    have hnext := RecordStream.lends_next h
    have hloan := x.stream.loan_next w.objects
    refine advance_leads ?_ ?_ ?_
    · intro r stream objects hout
      rw [hout] at hnext
      exact hnext
    · intro e stream objects hout
      rw [hout] at hnext
      -- the stream has given its body back, and closing it gives nothing back again
      have hback := RecordStream.lends_giveBack hnext
      refine afterStreamError_leads (fun e' _ => ?_) (fun _ _ => hback) fun _ _ => hback
      exact lends_of_idle hback
        (current_afterStoreError { f with current := none } x.summary e')
    · intro stream objects hout
      rw [hout] at hnext hloan
      have hnone : stream.loan? = none := hloan.resolve_left (by simp)
      have hended : objects.Lends start stream.loan? := hnext
      rwa [hnone] at hended
  · intro s _ hx _
    rw [loan_of_idle hx] at h
    exact lends_take (f := { f with pending := none }) h hx s
  · intro l _ hx _ _
    rw [loan_of_idle hx] at h
    have hstepped : ∀ {step l' objects}, l.step w.objects = (step, l', objects) →
        objects.Lends start none := by
      intro step l' objects hstep
      have hkept := Listing.step_keeps (P := Audited.Lends start none) (fun _ r hs => hs.list r) l h
      rwa [hstep] at hkept
    refine search_leads ?_ (fun _ _ hstep => lends_of_idle (hstepped hstep) hx)
      (fun _ _ hstep => lends_of_idle (hstepped hstep) hx)
      fun _ _ _ hstep => lends_of_idle (hstepped hstep) hx
    intro s l' objects hstep
    refine ⟨fun _ => ?_, fun _ => lends_of_idle (hstepped hstep) hx⟩
    exact lends_take (f := { f with listing := some l', lastKey := some s.key })
      (w := { w with objects }) (hstepped hstep) hx s
  · rw [loan_of_idle hx] at h
    exact lends_of_idle h hx

omit [OffsetStore τ] in
theorem lends_close (h : w.objects.Lends start f.loan?) :
    (f.close w).2.objects.Lends start (f.close w).1.loan? := by
  rcases close_cases f w with ⟨-, hclose⟩ | ⟨x, hx, hclose⟩
  · rw [hclose]
    exact h
  · rw [hclose]
    rw [loan_of_reading hx] at h
    exact RecordStream.lends_giveBack h

/-- **Along a path all bodies are given back** but the one that the object being read holds. -/
theorem lends_path {f' : Feed} {w' : AuditedWorld MemoryObjects τ}
    {ms : List (Moment (Audited MemoryObjects) (AuditedOffsets τ))} (hpath : Path f w ms f' w')
    (h : w.objects.Lends start f.loan?) : w'.objects.Lends start f'.loan? :=
  (hpath.keeps (I := fun f w => w.objects.Lends start f.loan?)
    (fun _ listed _ hg => lends_turn hg listed) (fun _ _ _ hg => hg)
    (fun _ _ hg => lends_close hg) h).1

end Lends

section Steps

variable [ObjectStore σ] [OffsetStore τ]

/-- What happens in a run: something is asked of the feed, or its stores change in between. -/
inductive Step (σ τ : Type) where
  | ask (a : Act)
  | change (g : World σ τ → World σ τ)

/-- Where a step leads to. -/
def Step.run (limit : Feed → World σ τ → Nat) : Step σ τ → Feed → World σ τ → Feed × World σ τ
  | .ask a, f, w => (act limit a f w).2
  | .change g, f, w => (f, g w)

/-- Steps in a row. -/
def steps (limit : Feed → World σ τ → Nat) :
    List (Step σ τ) → Feed → World σ τ → Feed × World σ τ
  | [], f, w => (f, w)
  | s :: ss, f, w => steps limit ss (s.run limit f w).1 (s.run limit f w).2

theorem steps_concat (limit : Feed → World σ τ → Nat) (ss : List (Step σ τ)) (s : Step σ τ)
    (f : Feed) (w : World σ τ) :
    steps limit (ss ++ [s]) f w =
      s.run limit (steps limit ss f w).1 (steps limit ss f w).2 := by
  induction ss generalizing f w with
  | nil => rfl
  | cons s' ss ih => exact ih _ _

theorem idle_steps {limit : Feed → World σ τ → Nat} {f : Feed} (h : f.Idle)
    (ss : List (Step σ τ)) (w : World σ τ) : (steps limit ss f w).1.Idle := by
  induction ss generalizing f w with
  | nil => exact h
  | cons s ss ih =>
    cases s with
    | ask a => exact ih (idle_path (act_path limit a f w) h) _
    | change g => exact ih h (g w)

/-- A change of the stores that is no access. -/
def World.unnoticed (g : World σ τ → World σ τ) (w : AuditedWorld σ τ) : AuditedWorld σ τ :=
  { objects := ⟨(g w.unaudited).objects, w.objects.accesses⟩
    offsets := ⟨(g w.unaudited).offsets, w.offsets.lookups⟩
    cache := (g w.unaudited).cache }

/-- The same step over audited stores. -/
def Step.audited : Step σ τ → Step (Audited σ) (AuditedOffsets τ)
  | .ask a => .ask a
  | .change g => .change (World.unnoticed g)

/-- Auditing changes nothing of a run. -/
theorem steps_audited (limit : Feed → World σ τ → Nat) (ss : List (Step σ τ)) (f : Feed)
    (w : AuditedWorld σ τ) :
    let audited := steps (fun f w => limit f w.unaudited) (ss.map Step.audited) f w
    steps limit ss f w.unaudited = (audited.1, audited.2.unaudited) := by
  induction ss generalizing f w with
  | nil => rfl
  | cons s ss ih =>
    cases s with
    | ask a =>
      simp only [steps, List.map_cons, Step.audited, Step.run, act_audited]
      exact ih _ _
    | change g => exact ih f (World.unnoticed g w)

end Steps

section Run

variable [OffsetStore τ]

/-- A change between acts hands no body out and takes none back. -/
def Step.LeavesCounts : Step MemoryObjects τ → Prop
  | .ask _ => True
  | .change g => ∀ w, (g w).objects.opened = w.objects.opened ∧
      (g w).objects.closed = w.objects.closed

variable {start : MemoryObjects} {limit : Feed → World MemoryObjects τ → Nat}

theorem lends_steps (limit : Feed → World MemoryObjects τ → Nat)
    {ss : List (Step MemoryObjects τ)} (hss : ∀ s ∈ ss, s.LeavesCounts) {f : Feed}
    {w : AuditedWorld MemoryObjects τ} (h : w.objects.Lends start f.loan?) :
    let run := steps (fun f w => limit f w.unaudited) (ss.map Step.audited) f w
    run.2.objects.Lends start run.1.loan? := by
  induction ss generalizing f w with
  | nil => exact h
  | cons s ss ih =>
    obtain ⟨hs, hrest⟩ := List.forall_mem_cons.1 hss
    cases s with
    | ask a =>
      have hpath := act_path (fun f w => limit f w.unaudited) a f w
      exact ih hrest (lends_path hpath h)
    | change g =>
      refine ih hrest ?_
      obtain ⟨returned, haccesses, hopened, hclosed⟩ := h
      obtain ⟨hopened', hclosed'⟩ := hs w.unaudited
      exact ⟨returned, haccesses, hopened'.trans hopened, hclosed'.trans hclosed⟩

/-- **No body is lost and none is given back twice**, whatever is asked of a feed and whatever
happens to its stores in between. After each act at most one of the bodies that were handed out is
still out, and none is unless an object is in flight. Each of the others was given back once, before
the next one was handed out. -/
theorem loans_returned (hlimit : ∀ f w, 0 < limit f w) {d : Directories} {c : FeedConfig}
    {failed : KeySet} {f : Feed} (hf : Feed.start d c failed = .ok f) (w : World MemoryObjects τ)
    {ss : List (Step MemoryObjects τ)} (hss : ∀ s ∈ ss, s.LeavesCounts) (a : Act) :
    let before := steps limit ss f w
    let after := act limit a before.1 before.2
    let audit := fun (f : Feed) (w : AuditedWorld MemoryObjects τ) => limit f w.unaudited
    let audited := steps audit ((ss ++ [Step.ask a]).map Step.audited) f w.audited
    (after.2.2.objects.lent = w.objects.lent ∨ after.2.2.objects.lent = w.objects.lent + 1) ∧
      (AtRest before.1 a after.1 after.2.1 → after.2.2.objects.lent = w.objects.lent) ∧
      (audited.1, audited.2.unaudited) = after.2 ∧
      ∃ returned : List String,
        audited.2.objects.accesses.filter (!·.isRefused) =
          Access.loans returned after.2.1.loan? ∧
        after.2.2.objects.opened =
          w.objects.opened + returned.length + after.2.1.loan?.toList.length ∧
        after.2.2.objects.closed = w.objects.closed + returned.length := by
  intro before after audit audited
  have hfresh := fresh_start hf
  have hstart : w.audited.objects.Lends w.objects f.loan? := by
    rw [loan_of_idle hfresh.current]
    exact .refl w.objects
  have hidle : f.Idle := fun _ => hfresh.current
  have hsteps : ∀ s ∈ ss ++ [Step.ask a], s.LeavesCounts := by
    simpa [or_imp, forall_and, Step.LeavesCounts] using hss
  -- the audited run is the run
  have hrun : (audited.1, audited.2.unaudited) = after.2 := by
    have haudited := steps_audited limit (ss ++ [.ask a]) f w.audited
    rw [steps_concat] at haudited
    exact haudited.symm
  have hfeed : audited.1 = after.2.1 := congrArg Prod.fst hrun
  have hobjects : audited.2.objects.store = after.2.2.objects :=
    congrArg (fun out => out.2.objects) hrun
  have hlends : audited.2.objects.Lends w.objects after.2.1.loan? := by
    rw [← hfeed]
    exact lends_steps limit hsteps hstart
  have hlent := hlends.lent
  rw [hobjects] at hlent
  refine ⟨?_, fun hrest => ?_, hrun, ?_⟩
  · cases hloan : after.2.1.loan? with
    | none => exact .inl (by simpa [hloan] using hlent)
    | some key => exact .inr (by simpa [hloan] using hlent)
  · have hbefore : before.1.Idle := idle_steps hidle ss w
    rw [loan_atRest hlimit hbefore before.2 hrest] at hlent
    simpa using hlent
  · obtain ⟨returned, haccesses, hopened, hclosed⟩ := hlends
    rw [hobjects] at hopened hclosed
    exact ⟨returned, haccesses, hopened, hclosed⟩

end Run

/-- The first record is returned, and then the next fetch of the second object is told to fail. -/
def sampleSteps : List (Step MemoryObjects MemoryOffsets) :=
  [.ask (.poll 1), .change fun w =>
    { w with objects := { w.objects with
        fetchFailures := w.objects.fetchFailures.insert "b" .network } }]

theorem leavesCounts_sampleSteps : ∀ s ∈ sampleSteps, s.LeavesCounts := by
  simp [sampleSteps, Step.LeavesCounts]

theorem turnLimit_pos (f : Feed) (w : MemoryWorld) : 0 < f.turnLimit w := Nat.succ_pos _

/-- The first body is out after a record of it, and it is given back before the error is met that is
held back. -/
theorem loans_returned_sample :
    let before := steps turnLimit sampleSteps sampleFeed sampleWorld
    let after := act turnLimit (.poll 10) before.1 before.2
    let audited := steps (fun f w => turnLimit f w.unaudited)
      ((sampleSteps ++ [Step.ask (.poll 10)]).map Step.audited) sampleFeed sampleWorld.audited
    before.2.objects.lent = 1 ∧
      after.2.1.deferred = some (.store ⟨.network, "Fetch of store/b failed", none⟩) ∧
      after.2.2.objects.lent = 0 ∧
      ∃ key, audited.2.objects.accesses.filter (!·.isRefused) = [.handed key, .released] := by
  dsimp only
  obtain ⟨-, hrest, -, returned, haccesses, -, hclosed⟩ := loans_returned turnLimit_pos
    start_sampleConfig sampleWorld leavesCounts_sampleSteps (.poll 10)
  have hlent : (steps turnLimit sampleSteps sampleFeed sampleWorld).2.objects.lent = 1 := by cbv
  have hbefore : (steps turnLimit sampleSteps sampleFeed sampleWorld).1.deferred = none := by cbv
  have hheld : (act turnLimit (.poll 10) (steps turnLimit sampleSteps sampleFeed sampleWorld).1
      (steps turnLimit sampleSteps sampleFeed sampleWorld).2).2.1.deferred =
      some (.store ⟨.network, "Fetch of store/b failed", none⟩) := by cbv
  have hloan : (act turnLimit (.poll 10) (steps turnLimit sampleSteps sampleFeed sampleWorld).1
      (steps turnLimit sampleSteps sampleFeed sampleWorld).2).2.1.loan? = none := by cbv
  have hone : (act turnLimit (.poll 10) (steps turnLimit sampleSteps sampleFeed sampleWorld).1
      (steps turnLimit sampleSteps sampleFeed sampleWorld).2).2.2.objects.closed = 1 := by cbv
  rw [hone] at hclosed
  rw [hloan] at haccesses
  obtain ⟨key, rfl⟩ := List.length_eq_one_iff.1 (show returned.length = 1 by
    simpa [sampleWorld] using hclosed.symm)
  exact ⟨hlent, hheld, (hrest (.held hbefore (by rw [hheld]; rfl))).trans rfl, key, haccesses⟩

end Feed

end ObjectFeed
