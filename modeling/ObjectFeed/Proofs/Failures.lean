import ObjectFeed.Proofs.WholeRun

/-!
# Failures that clear up

The stores may fail by any plan: listings with any error, fetches and look-ups with errors that
may clear up. A worker that goes on calling after every such failure loses nothing and repeats
nothing.

* `PlannedObjects`, `PlannedOffsets`: stores in memory that fail by a plan.
* `Feed.turn_refusal`: a failure of a store neither stops the feed nor marks a key as failed.
* `Feed.calls_planned`: **besides the planned failures the outcomes are those of a run without
  failures.**
-/

namespace ObjectFeed

/-- The answer of a store that fails by a plan: the next error, if there is one, in place of the
answer. -/
def answerByPlan {σ α : Type} (plan : List (Option StoreError))
    (answer : σ → Except StoreError α × σ) (s : σ) :
    Except StoreError α × σ × List (Option StoreError) :=
  match plan with
  | some e :: plan => (.error e, s, plan)
  | plan =>
    match answer s with
    | (r, s) => (r, s, plan.tail)

/-- The failures that are left in a plan. -/
def plannedFailures (plan : List (Option StoreError)) : Nat := plan.countP Option.isSome

/-- A store that fails by a plan uses up a failure or answers. -/
theorem answerByPlan_cases {σ α : Type} (plan : List (Option StoreError))
    (answer : σ → Except StoreError α × σ) (s : σ) :
    (∃ e rest, some e ∈ plan ∧ rest = plan.tail ∧ plannedFailures plan = plannedFailures rest + 1 ∧
      answerByPlan plan answer s = (.error e, s, rest)) ∨
    (plannedFailures plan.tail = plannedFailures plan ∧
      answerByPlan plan answer s = ((answer s).1, (answer s).2, plan.tail)) := by
  match plan with
  | some e :: plan =>
    exact .inl ⟨e, plan, List.mem_cons_self, rfl, List.countP_cons_of_pos rfl, rfl⟩
  | none :: plan => exact .inr ⟨(List.countP_cons_of_neg (by simp)).symm, rfl⟩
  | [] => exact .inr ⟨rfl, rfl⟩

/-- An object store in memory that fails by a plan for the listings to come and one for the
fetches. -/
structure PlannedObjects where
  store : MemoryObjects
  listings : List (Option StoreError) := []
  fetches : List (Option StoreError) := []

/-- An offset store in memory that fails by a plan for the look-ups to come. -/
structure PlannedOffsets where
  store : MemoryOffsets
  lookups : List (Option StoreError) := []

instance : ObjectStore PlannedObjects where
  list s r :=
    match answerByPlan s.listings (ObjectStore.list · r) s.store with
    | (p, store, listings) => (p, { s with store, listings })
  fetch s bucket key :=
    match answerByPlan s.fetches (ObjectStore.fetch · bucket key) s.store with
    | (body, store, fetches) => (body, { s with store, fetches })
  release s := { s with store := ObjectStore.release s.store }

instance : OffsetStore PlannedOffsets where
  lookup s identity :=
    match answerByPlan s.lookups (OffsetStore.lookup · identity) s.store with
    | (p, store, lookups) => (p, { s with store, lookups })

instance : ObjectHolder PlannedObjects where
  Holds s bucket objects := ObjectHolder.Holds s.store bucket objects ∧
    ObjectHolder.faults s.store = 0 ∧ ∀ e, some e ∈ s.fetches → e.isTransient = true
  faults s := plannedFailures s.listings + plannedFailures s.fetches
  list_cases {s bucket objects r after} h hb hr := by
    obtain ⟨hstore, hcalm, htransient⟩ := h
    rcases answerByPlan_cases s.listings (ObjectStore.list · r) s.store with
      ⟨e, rest, -, -, hplan, hanswer⟩ | ⟨hplan, hanswer⟩
    · refine .inr ⟨e, { s with listings := rest }, ?_, ⟨hstore, hcalm, htransient⟩, ?_⟩
      · simp only [ObjectStore.list] at hanswer ⊢
        rw [hanswer]
      · show plannedFailures s.listings + plannedFailures s.fetches =
          plannedFailures rest + plannedFailures s.fetches + 1
        omega
    · rcases ObjectHolder.list_cases hstore hb hr with ⟨store, hlist, hholds, hfaults⟩ |
        ⟨e, store, -, -, hfaults⟩
      · refine .inl ⟨{ s with store, listings := s.listings.tail }, ?_,
          ⟨hholds, hfaults.trans hcalm, htransient⟩, ?_⟩
        · rw [hlist] at hanswer
          simp only [ObjectStore.list] at hanswer ⊢
          rw [hanswer]
        · show _ + _ = _ + _
          rw [hplan]
      · omega
  fetch_cases {s bucket key objects body} h hb := by
    obtain ⟨hstore, hcalm, htransient⟩ := h
    have htail : ∀ e, some e ∈ s.fetches.tail → e.isTransient = true :=
      fun e he => htransient e (List.mem_of_mem_tail he)
    rcases answerByPlan_cases s.fetches (ObjectStore.fetch · bucket key) s.store with
      ⟨e, rest, he, rfl, hplan, hanswer⟩ | ⟨hplan, hanswer⟩
    · refine .inr ⟨e, { s with fetches := s.fetches.tail }, ?_, htransient e he,
        ⟨hstore, hcalm, htail⟩, ?_⟩
      · simp only [ObjectStore.fetch] at hanswer ⊢
        rw [hanswer]
      · show plannedFailures s.listings + plannedFailures s.fetches =
          plannedFailures s.listings + plannedFailures s.fetches.tail + 1
        omega
    · rcases ObjectHolder.fetch_cases hstore hb with ⟨store, hfetch, hholds, hfaults⟩ |
        ⟨e, store, -, -, -, hfaults⟩
      · refine .inl ⟨{ s with store, fetches := s.fetches.tail }, ?_,
          ⟨hholds, hfaults.trans hcalm, htail⟩, ?_⟩
        · rw [hfetch] at hanswer
          simp only [ObjectStore.fetch] at hanswer ⊢
          rw [hanswer]
        · show _ + _ = _ + _
          rw [hplan]
      · omega
  holds_release h :=
    ⟨ObjectHolder.holds_release h.1, (ObjectHolder.faults_release _).trans h.2.1, h.2.2⟩
  faults_release _ := rfl

instance : OffsetHolder PlannedOffsets where
  Holds s persisted := OffsetHolder.Holds s.store persisted ∧ OffsetHolder.faults s.store = 0 ∧
    ∀ e, some e ∈ s.lookups → e.isTransient = true
  faults s := plannedFailures s.lookups
  lookup_cases {s persisted} h k := by
    obtain ⟨hstore, hcalm, htransient⟩ := h
    have htail : ∀ e, some e ∈ s.lookups.tail → e.isTransient = true :=
      fun e he => htransient e (List.mem_of_mem_tail he)
    rcases answerByPlan_cases s.lookups (OffsetStore.lookup · k.properties) s.store with
      ⟨e, rest, he, rfl, hplan, hanswer⟩ | ⟨hplan, hanswer⟩
    · refine .inr ⟨e, { s with lookups := s.lookups.tail }, ?_, htransient e he,
        ⟨hstore, hcalm, htail⟩, hplan⟩
      simp only [OffsetStore.lookup] at hanswer ⊢
      rw [hanswer]
    · rcases OffsetHolder.lookup_cases hstore k with ⟨store, hlookup, hholds, hfaults⟩ |
        ⟨e, store, -, -, -, hfaults⟩
      · refine .inl ⟨{ s with store, lookups := s.lookups.tail }, ?_,
          ⟨hholds, hfaults.trans hcalm, htail⟩, hplan⟩
        rw [hlookup] at hanswer
        simp only [OffsetStore.lookup] at hanswer ⊢
        rw [hanswer]
      · omega

/-- The world in which nothing fails. -/
def World.calm (w : World PlannedObjects PlannedOffsets) : Feed.MemoryWorld :=
  ⟨w.objects.store, w.offsets.store, w.cache⟩

/-- The failures that are left in the plans. -/
def World.planned (w : World PlannedObjects PlannedOffsets) : Nat :=
  plannedFailures w.objects.listings + plannedFailures w.objects.fetches +
    plannedFailures w.offsets.lookups

namespace Feed

/-- Stores in memory that fail by plans, and an offset cache. -/
abbrev PlannedWorld := World PlannedObjects PlannedOffsets

/-- The next record or error, or nothing if there is nothing new. -/
def nextPlanned (f : Feed) (w : PlannedWorld) :
    Option (Except Error Delivery) × Feed × PlannedWorld :=
  f.pull (f.turnLimit w.calm) false w

section Turn

variable {σ τ : Type} {f f' : Feed} {w w' : World σ τ}

theorem afterStoreError_eq (f : Feed) (s : Summary) (e : StoreError) :
    (f.afterStoreError s e).terminated = f.terminated ∧
      (f.afterStoreError s e).filter = f.filter := by
  unfold afterStoreError
  split <;> exact ⟨rfl, rfl⟩

theorem take_refusal [OffsetStore τ] {s : Summary} {e : StoreError}
    (h : f.take s w = .outcome (some (.error (.store e))) f' w') :
    f'.terminated = f.terminated ∧ f'.filter = f.filter := by
  unfold take at h
  split at h
  · simp at h
  · split at h
    · simp at h
    · simp only [Turn.outcome.injEq] at h
      rw [← h.2.1]
      exact afterStoreError_eq f s _
    · rename_i hne _
      simp only [Turn.outcome.injEq, Option.some.injEq, Except.error.injEq] at h
      exact absurd h.1 (hne e)

theorem afterStreamError_refusal {s : Summary} {x : Error} {e : StoreError}
    (h : f.afterStreamError s x w = .outcome (some (.error (.store e))) f' w') :
    f'.terminated = f.terminated ∧ f'.filter = f.filter := by
  unfold afterStreamError at h
  split at h
  · simp only [Turn.outcome.injEq] at h
    rw [← h.2.1]
    exact afterStoreError_eq f s _
  · rename_i hne
    split at h
    · simp only [Turn.outcome.injEq, Option.some.injEq, Except.error.injEq] at h
      exact absurd h.1 (hne e)
    · simp at h

theorem search_refusal [ObjectStore σ] [OffsetStore τ] {l : Listing} {listed : Bool}
    {e : StoreError} (h : f.search l listed w = .outcome (some (.error (.store e))) f' w') :
    f'.terminated = f.terminated ∧ f'.filter = f.filter := by
  unfold search at h
  split at h
  · simp only at h
    split at h
    · have hkept := take_refusal h
      exact hkept
    · simp at h
  · simp at h
  · simp at h
  · simp only [Turn.outcome.injEq] at h
    rw [← h.2.1]
    exact ⟨rfl, rfl⟩

theorem advance_refusal [ObjectStore σ] {x : InFlight} {e : StoreError}
    (h : f.advance x w = .outcome (some (.error (.store e))) f' w') :
    f'.terminated = f.terminated ∧ f'.filter = f.filter := by
  unfold advance at h
  split at h
  · simp at h
  · have hkept := afterStreamError_refusal h
    exact hkept
  · simp at h

/-- **A failure of a store neither stops a feed nor marks a key as failed.** -/
theorem turn_refusal [ObjectStore σ] [OffsetStore τ] {listed : Bool} {e : StoreError}
    (h : f.turn listed w = .outcome (some (.error (.store e))) f' w') :
    f'.terminated = f.terminated ∧ f'.filter = f.filter := by
  unfold turn at h
  split at h
  · simp at h
  · split at h
    · exact advance_refusal h
    · have hkept := take_refusal h
      exact hkept
    · exact search_refusal h
    · split at h <;> simp at h

end Turn

/-- A course that stops has an item that stops it. -/
theorem items_ne_nil_of_terminated {t : Tolerance} {failed : KeySet} {ys : List (String × Yield)}
    (h : (Course.ofYields t failed ys).terminated = true) :
    (Course.ofYields t failed ys).items ≠ [] := by
  induction ys generalizing failed with
  | nil => simp [Course.ofYields] at h
  | cons y ys ih =>
    obtain ⟨key, ds, failure⟩ := y
    cases failure with
    | none =>
      have hrest : (Course.ofYields t failed ys).items ≠ [] := ih h
      show ds.map Except.ok ++ (Course.ofYields t failed ys).items ≠ []
      simp [hrest]
    | some e =>
      cases t with
      | none =>
        show ds.map Except.ok ++ [Except.error e] ≠ []
        simp
      | all =>
        have hrest : (Course.ofYields .all (failed.insert key ()) ys).items ≠ [] := ih h
        show ds.map Except.ok ++ (Course.ofYields .all (failed.insert key ()) ys).items ≠ []
        simp [hrest]

/-- A course keeps the keys that have failed before. -/
theorem contains_failed_ofYields {t : Tolerance} {failed : KeySet} {ys : List (String × Yield)}
    {key : String} (h : failed.contains key = true) :
    (Course.ofYields t failed ys).failed.contains key = true := by
  induction ys generalizing failed with
  | nil => exact h
  | cons y ys ih =>
    obtain ⟨key', ds, failure⟩ := y
    cases failure with
    | none => exact ih h
    | some e =>
      cases t with
      | none => exact h
      | all =>
        refine ih ?_
        simp only [Dict.contains, Dict.get?_insert] at h ⊢
        split <;> simp [h]

/-- Whether a feed has stopped can be read off its course. -/
theorem terminated_eq (f : Feed) (H : Holdings) (c : OffsetCache) :
    f.terminated = ((f.course H c).items.isEmpty && (f.course H c).terminated) := by
  unfold course
  cases hterm : f.terminated with
  | true => rfl
  | false =>
    simp only [Bool.false_eq_true, if_false]
    cases hcourse : (Course.ofYields f.tolerance f.filter.failed (f.ahead H c)).terminated with
    | false => rw [Bool.and_false]
    | true =>
      have hitems := items_ne_nil_of_terminated hcourse
      rw [Bool.and_true, List.isEmpty_eq_false_iff.2 hitems]

theorem contains_failed_course {f : Feed} {key : String} (h : f.filter.failed.contains key = true)
    (H : Holdings) (c : OffsetCache) : (f.course H c).failed.contains key = true := by
  unfold course
  split
  · exact h
  · exact contains_failed_ofYields h

theorem nextPlanned_eq_pull {H : Holdings} (f : Feed) (w : PlannedWorld)
    (hw : w.Holds f.lister.bucket H) :
    ∃ limit, f.load H false < limit ∧ f.nextPlanned w = f.pull limit false w :=
  ⟨f.turnLimit w.calm, load_lt_turnLimit hw.1.1.1, rfl⟩

theorem length_answers (rs : List (Option (Except Error Delivery))) :
    (answers rs).length = rs.length - rs.countP isRefusal := by
  have hsum := List.length_eq_countP_add_countP isRefusal (l := rs)
  have hanswers : (answers rs).length = rs.countP fun r => ¬ isRefusal r := by
    rw [answers, ← List.countP_eq_length_filter]
    exact List.countP_congr fun r _ => by simp
  omega

theorem getLast?_answers {rs : List (Option (Except Error Delivery))}
    (h : rs.getLast? = some none) : (answers rs).getLast? = some none := by
  obtain ⟨rs, rfl⟩ := List.getLast?_eq_some_iff.1 h
  rw [answers, List.filter_append]
  exact List.getLast?_concat

/-- **Besides the planned failures the outcomes are those of a run without failures.** Each failure
that is returned is one that was planned. The feed has stopped just if it had stopped without them,
and no key has failed that would not fail without them; when nothing is left, the same keys have
failed. -/
theorem calls_planned {d : Directories} {c : FeedConfig} {failed : KeySet} {f : Feed}
    (hf : start d c failed = .ok f) {w : PlannedWorld} {objects : Dict Body}
    (hw : w.calm.Calm c.bucket objects)
    (hfetches : ∀ e, some e ∈ w.objects.fetches → e.isTransient = true)
    (hlookups : ∀ e, some e ∈ w.offsets.lookups → e.isTransient = true)
    (hcache : w.cache = {}) (hr : Resumable w.offsets.store.stored?) (n : Nat) :
    let out := calls nextPlanned n f w
    let refused := out.1.countP isRefusal
    let calm := calls next (n - refused) f w.calm
    answers out.1 = calm.1 ∧
      w.planned = refused + out.2.2.planned ∧
      out.2.1.terminated = calm.2.1.terminated ∧
      (∀ key, out.2.1.filter.failed.contains key = true →
        (f.reference ⟨objects, w.offsets.store.stored?⟩).failed.contains key = true) ∧
      (out.1.getLast? = some none → out.2.1.filter.failed = calm.2.1.filter.failed) ∧
      ∀ (g g' : Feed) (v v' : PlannedWorld) listed e,
        g.turn listed v = .outcome (some (.error (.store e))) g' v' →
          g'.terminated = g.terminated ∧ g'.filter = g.filter := by
  intro out refused calm
  let H : Holdings := ⟨objects, w.offsets.store.stored?⟩
  have hfresh := fresh_start hf
  have hbucket := bucket_start hf
  have hstate : f.StateOK H w.cache := by
    rw [hcache]
    exact stateOK_fresh hfresh H
  have hcalm : w.calm.Holds f.lister.bucket H := hbucket ▸ hw.holds
  have hfaults : w.calm.faults = 0 := hw.faults
  have hholds : w.Holds f.lister.bucket H := by
    have hstores : ObjectHolder.faults w.objects.store + OffsetHolder.faults w.offsets.store = 0 :=
      hfaults
    exact ⟨⟨hcalm.1, by omega, hfetches⟩, hcalm.2, by omega, hlookups⟩
  have hrun := calls_ok nextPlanned nextPlanned_eq_pull hr n hstate hholds
  have hrunCalm := calls_ok next (fun f w => next_eq_pull f w) hr (n - refused)
    (w := w.calm) hstate hcalm
  -- both runs have served the same number of items of the same course
  have hlength : (answers out.1).length = n - refused := by
    rw [length_answers, length_calls]
  have hlength' : (answers calm.1).length = n - refused := by
    rw [hrunCalm.answers_eq hfaults, length_calls]
  have hanswers := hrun.answers
  have hrest := hrun.rest
  have hanswers' := hrunCalm.answers
  have hrest' := hrunCalm.rest
  rw [hlength] at hanswers hrest
  rw [hlength', hrunCalm.answers_eq hfaults] at hanswers'
  rw [hlength'] at hrest'
  have hcourse : calm.2.1.course H calm.2.2.cache = out.2.1.course H out.2.2.cache :=
    hrest'.trans hrest.symm
  have hreference : f.course H w.cache = f.reference H := by
    rw [hcache]
    exact course_fresh hfresh hr
  have hsame : answers out.1 = calm.1 := hanswers.trans hanswers'.symm
  refine ⟨hsame, hrun.faults, ?_, ?_, ?_, fun _ _ _ _ _ _ => turn_refusal⟩
  · rw [terminated_eq out.2.1 H out.2.2.cache, terminated_eq calm.2.1 H calm.2.2.cache, hcourse]
  · intro key hkey
    have hcontains := contains_failed_course hkey H out.2.2.cache
    rw [hrest, hreference] at hcontains
    exact hcontains
  · intro hlast
    have hlast' : calm.1.getLast? = some none := by
      rw [← hsame]
      exact getLast?_answers hlast
    have hfinished := (hrun.finished hlast).symm.trans
      (hcourse.symm.trans (hrunCalm.finished hlast'))
    exact congrArg Course.failed hfinished

/-- The first listing, a look-up, a fetch and a later listing fail. -/
def samplePlannedWorld : PlannedWorld :=
  { objects :=
      { store := sampleWorld.objects
        listings := [some ⟨.internalError, "listing", none⟩, none, some ⟨.network, "listing", none⟩]
        fetches := [none, some ⟨.timeout, "fetch", none⟩] }
    offsets := { store := sampleWorld.offsets, lookups := [some ⟨.rateLimited, "look-up", none⟩] } }

theorem calls_planned_sample :
    let out := calls nextPlanned 9 sampleFeed samplePlannedWorld
    let refused := out.1.countP isRefusal
    answers out.1 = (calls next (9 - refused) sampleFeed sampleWorld).1 ∧
      4 = refused + out.2.2.planned := by
  obtain ⟨hsame, hplanned, -⟩ := calls_planned (w := samplePlannedWorld) start_sampleConfig
    calm_sampleWorld (by simp [samplePlannedWorld, StoreError.isTransient, ErrorKind.isTransient])
    (by simp [samplePlannedWorld, StoreError.isTransient, ErrorKind.isTransient]) rfl
    resumable_sampleWorld 9
  exact ⟨hsame, hplanned⟩

end Feed

end ObjectFeed
