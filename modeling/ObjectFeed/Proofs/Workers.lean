import ObjectFeed.Proofs.Partition
import ObjectFeed.Proofs.WholeRun

/-!
# Several workers on one bucket

Workers that share the stores and the cache do not disturb each other: each of them touches only
what belongs to its own keys, and every key belongs to one of them.

* `Feed.interleave`: the outcomes of calls of several workers in any order.
* `Feed.outcomesOf_interleave`: **each worker gets what it would get alone.**
* `Feed.interleave_cover`: **together the workers deliver what a single one delivers**, and all
  records of an object come from one of them.
-/

namespace ObjectFeed.Feed

section Interleaving

variable {σ τ : Type} {ι : Type} [DecidableEq ι]

/-- The outcomes of calls of several workers in a given order, each with its worker. -/
def interleave (next : Feed → World σ τ → Option (Except Error Delivery) × Feed × World σ τ) :
    (schedule : List ι) → (ι → Feed) → World σ τ →
    List (ι × Option (Except Error Delivery)) × (ι → Feed) × World σ τ
  | [], fs, w => ([], fs, w)
  | i :: schedule, fs, w =>
    match next (fs i) w with
    | (r, f, w) =>
      match interleave next schedule (fun j => if j = i then f else fs j) w with
      | (rs, fs, w) => ((i, r) :: rs, fs, w)

/-- The outcomes of one worker. -/
def outcomesOf (i : ι) (rs : List (ι × Option (Except Error Delivery))) :
    List (Option (Except Error Delivery)) :=
  (rs.filter fun r => r.1 = i).map (·.2)

variable [ObjectStore σ] [OffsetStore τ] [ObjectHolder σ] [OffsetHolder τ]

/-- Workers of one bucket whose keys are apart, each in a state that belongs to the cache. -/
structure TeamOK (H : Holdings) (bucket : String) (fs : ι → Feed) (w : World σ τ) : Prop where
  state : ∀ i, (fs i).StateOK H w.cache
  shared : ∀ i, (fs i).lister.bucket = bucket
  apart : ∀ i j, i ≠ j → ∀ key, (fs i).filter.assignment.owns key = true →
    (fs j).filter.assignment.owns key = false
  holds : w.Holds bucket H

variable {H : Holdings} {bucket : String} {fs : ι → Feed} {w : World σ τ}

/-- A call of one worker leaves the state and the course of all others as they were. -/
theorem TeamOK.step (h : TeamOK H bucket fs w) {i : ι} {f : Feed} {w' : World σ τ}
    (hkeeps : Keeps H (fs i) w f w') :
    TeamOK H bucket (fun j => if j = i then f else fs j) w' ∧
      ∀ j, j ≠ i → (fs j).course H w'.cache = (fs j).course H w.cache := by
  have hothers : ∀ j, j ≠ i → (fs j).StateOK H w'.cache ∧
      (fs j).course H w'.cache = (fs j).course H w.cache := by
    intro j hj
    refine (h.state j).congr fun k hk => ?_
    exact hkeeps.others k (h.apart j i hj _ hk)
  refine ⟨⟨?_, ?_, ?_, ?_⟩, fun j hj => (hothers j hj).2⟩
  · intro j
    by_cases hj : j = i
    · simp only [if_pos hj]
      exact hkeeps.state
    · simp only [if_neg hj]
      exact (hothers j hj).1
  · intro j
    by_cases hj : j = i
    · simp only [if_pos hj]
      rw [lister_congr hkeeps.setup]
      exact h.shared i
    · simp only [if_neg hj]
      exact h.shared j
  · have hassignment : ∀ j, (if j = i then f else fs j).filter.assignment =
        (fs j).filter.assignment := by
      intro j
      by_cases hj : j = i
      · rw [if_pos hj, hj]
        exact assignment_congr hkeeps.setup
      · rw [if_neg hj]
    intro j l hjl key
    rw [hassignment j, hassignment l]
    exact h.apart j l hjl key
  · have hholds := hkeeps.holds
    rw [lister_congr hkeeps.setup, h.shared i] at hholds
    exact hholds

/-- **Each worker gets the items of its own course**, whatever the others do in between. -/
theorem outcomesOf_interleave
    (next : Feed → World σ τ → Option (Except Error Delivery) × Feed × World σ τ)
    (hnext : ∀ f w, w.Holds f.lister.bucket H →
      ∃ limit, f.load H false < limit ∧ next f w = f.pull limit false w)
    (hr : Resumable H.persisted) (h : TeamOK H bucket fs w) (hfaults : w.faults = 0)
    (schedule : List ι) (i : ι) :
    outcomesOf i (interleave next schedule fs w).1 =
      served ((fs i).course H w.cache).items (schedule.count i) := by
  induction schedule generalizing fs w with
  | nil => rfl
  | cons j schedule ih =>
    have hw : w.Holds (fs j).lister.bucket H := by
      rw [h.shared j]
      exact h.holds
    obtain ⟨limit, hlimit, hpull⟩ := hnext (fs j) w hw
    obtain ⟨hkeeps, haccounts⟩ := pull_ok hr limit false (h.state j) hw (by simp) hlimit
    rw [← hpull, hfaults] at haccounts
    rw [← hpull] at hkeeps
    unfold interleave
    generalize next (fs j) w = out at hkeeps haccounts ⊢
    obtain ⟨r, f', w'⟩ := out
    simp only at hkeeps haccounts ⊢
    obtain ⟨hteam, hcourses⟩ := h.step hkeeps
    -- without failures to come each call is answered
    have hanswer : isRefusal r = false := by
      cases hrefusal : isRefusal r with
      | false => rfl
      | true =>
        have := (haccounts.refusal hrefusal).2
        omega
    obtain ⟨hhead, htail, hsame, -⟩ := haccounts.answer hanswer
    have hrest := ih hteam hsame
    generalize interleave next schedule (fun l => if l = j then f' else fs l) w' = out at hrest ⊢
    obtain ⟨rs, fs', w''⟩ := out
    simp only at hrest ⊢
    by_cases hj : i = j
    · rw [if_pos hj, htail] at hrest
      rw [hj] at hrest ⊢
      rw [List.count_cons_self, served_succ, ← hhead, ← hrest]
      simp [outcomesOf]
    · -- the call of another worker leaves the course as it is
      rw [if_neg hj, hcourses i hj] at hrest
      rw [List.count_cons_of_ne (Ne.symm hj), ← hrest]
      simp [outcomesOf, Ne.symm hj]

end Interleaving

/-- The records among outcomes. -/
def recordsOf (rs : List (Option (Except Error Delivery))) : List Delivery :=
  rs.filterMap fun r =>
    match r with
    | some (.ok d) => some d
    | _ => none

theorem recordsOf_served (ds : List Delivery) (n : Nat) :
    recordsOf (served (ds.map .ok) n) = ds.take n := by
  induction n generalizing ds with
  | zero => rfl
  | succ n ih =>
    rw [served_succ]
    cases ds with
    | nil =>
      show recordsOf (served ([].map .ok) n) = []
      rw [ih, List.take_nil]
    | cons d ds => exact congrArg (d :: ·) (ih ds)

/-- What is split by a tag is together what it was. -/
theorem perm_flatMap_filter {α : Type} {n : Nat} (tag : α → Fin n) (l : List α) :
    ((List.finRange n).flatMap fun i => l.filter fun x => tag x = i).Perm l := by
  induction l with
  | nil => simp
  | cons x l ih =>
    -- the element goes to just one of the parts
    have hinsert : ∀ is : List (Fin n), is.Nodup → tag x ∈ is →
        (is.flatMap fun i => (x :: l).filter fun y => tag y = i).Perm
          (x :: is.flatMap fun i => l.filter fun y => tag y = i) := by
      intro is
      induction is with
      | nil => simp
      | cons i is ihi =>
        intro hnodup hmem
        obtain ⟨hnot, hnodup⟩ := List.nodup_cons.1 hnodup
        rw [List.flatMap_cons, List.flatMap_cons]
        by_cases hi : tag x = i
        · have hlater : (is.flatMap fun i => (x :: l).filter fun y => tag y = i) =
              is.flatMap fun i => l.filter fun y => tag y = i := by
            refine List.flatMap_congr fun j hj => List.filter_cons_of_neg ?_
            have hne : tag x ≠ j := fun heq => hnot (by rw [← hi, heq]; exact hj)
            simpa using hne
          rw [hlater, List.filter_cons_of_pos (by simpa using hi), List.cons_append]
        · have hmem := (List.mem_cons.1 hmem).resolve_left hi
          rw [List.filter_cons_of_neg (by simpa using hi)]
          exact ((ihi hnodup hmem).append_left _).trans List.perm_middle
    exact (hinsert _ (List.nodup_finRange n) (List.mem_finRange _)).trans (ih.cons x)

variable {f : Feed} {H : Holdings}

/-- The deliveries of an object in a whole run. -/
def share (f : Feed) (H : Holdings) (m : String × Body) : List Delivery :=
  (f.contribution H m).flatMap fun y => y.2.deliveries

theorem items_reference (h : f.tolerance = .all) :
    (f.reference H).items = ((H.objects.members.filter f.selects).flatMap (f.share H)).map .ok := by
  rw [reference, Course.items_ofYields h, List.flatMap_assoc]
  rfl

theorem identity_of_mem_deliveries {o : Offset} {key : String} {place : Nat} {rs : List Record}
    {x : Delivery} (h : x ∈ o.deliveries key place rs) : x.identity = o.key.properties := by
  induction rs generalizing place with
  | nil => simp [Offset.deliveries] at h
  | cons r rs ih =>
    rcases List.mem_cons.1 h with rfl | h
    · rfl
    · exact ih h

/-- The deliveries of an object carry its key. -/
theorem objectKey_of_mem_share (hr : Resumable H.persisted) {m : String × Body} {x : Delivery}
    (h : x ∈ f.share H m) : x.identity.get? "objectKey" = some (.string m.1) := by
  unfold share contribution at h
  cases hk : f.identify m.1 with
  | none => simp [hk] at h
  | some k =>
    simp only [hk, List.flatMap_cons, List.flatMap_nil, List.append_nil] at h
    rw [identity_of_mem_deliveries h, Offset.recorded_key hr, OffsetKey.get?_properties,
      ← identify_objectKey hk]
    rfl

/-- Workers that differ only in their place differ only in their assignment. -/
theorem start_worker {d : Directories} {c : FeedConfig} {failed : KeySet} {g : Feed}
    {taskId taskId' maxTasks maxTasks' : Option Int64}
    (hf : start d { c with taskId, maxTasks } failed = .ok f)
    (hg : start d { c with taskId := taskId', maxTasks := maxTasks' } failed = .ok g) :
    f = { g with filter := { g.filter with assignment := .resolve taskId maxTasks } } := by
  obtain ⟨template, settings, ht, hs, rfl⟩ := start_eq_ok_iff.1 hf
  obtain ⟨template', settings', ht', hs', rfl⟩ := start_eq_ok_iff.1 hg
  cases ht.symm.trans ht'
  cases hs.symm.trans hs'
  rfl

/-- The records of several workers together, worker by worker. -/
theorem recordsOf_perm {n : Nat} (rs : List (Fin n × Option (Except Error Delivery))) :
    (recordsOf (rs.map (·.2))).Perm
      ((List.finRange n).flatMap fun i => recordsOf (outcomesOf i rs)) := by
  have hperm := ((perm_flatMap_filter (fun r => r.1) rs).symm.map (·.2)).filterMap fun r =>
    match r with
    | some (.ok d) => some d
    | _ => none
  rw [List.map_flatMap, List.filterMap_flatMap] at hperm
  exact hperm

/-- A run that serves a reference to its end serves the share of each selected object. -/
theorem recordsOf_drained (htol : f.tolerance = .all) {m : Nat}
    (hdrained : none ∈ served (f.reference H).items m) :
    recordsOf (served (f.reference H).items m) =
      (H.objects.members.filter f.selects).flatMap (f.share H) := by
  have hlength := none_mem_served_iff.1 hdrained
  rw [items_reference htol, List.length_map] at hlength
  rw [items_reference htol, recordsOf_served, List.take_of_length_le (Nat.le_of_lt hlength)]

section Team

variable {n : Nat} {d : Directories} {c : FeedConfig} {failed : KeySet} {fs : Fin n → Feed}
variable {w : MemoryWorld} {objects : Dict Body} {single : Feed}
variable (hn : 0 < n) (hn' : n < pow2 32)
variable (hfs : ∀ i : Fin n, start d
  { c with taskId := some (.ofNat i), maxTasks := some (.ofNat n) } failed = .ok (fs i))

include hn' hfs in
theorem assignment_start (i : Fin n) : (fs i).filter.assignment = ⟨i, n⟩ := by
  obtain ⟨template, settings, -, -, hi⟩ := start_eq_ok_iff.1 (hfs i)
  rw [hi]
  exact Assignment.resolve_ofNat i.isLt hn'

include hfs in
/-- A worker delivers of an object what a single worker does. -/
theorem share_worker (hsingle : start d { c with maxTasks := some 1 } failed = .ok single)
    (i : Fin n) : (fs i).share H = single.share H := by
  have hsingle' : start d { c with taskId := c.taskId, maxTasks := some 1 } failed = .ok single :=
    hsingle
  rw [start_worker (c := c) (hfs i) hsingle']
  rfl

include hn' hfs in
/-- A worker selects the objects of a single worker that it owns. -/
theorem selects_worker (hsingle : start d { c with maxTasks := some 1 } failed = .ok single)
    (i : Fin n) (m : String × Body) :
    (fs i).selects m = (decide (Assignment.owner hn m.1 = i) && single.selects m) := by
  have howner : (⟨i, n⟩ : Assignment).owns m.1 = decide (Assignment.owner hn m.1 = i) := by
    rw [Bool.eq_iff_iff, decide_eq_true_iff]
    exact Assignment.owns_iff hn i m.1
  have howns : single.filter.assignment.owns m.1 = true := by
    obtain ⟨template, settings, -, -, rfl⟩ := start_eq_ok_iff.1 hsingle
    exact Assignment.owns_resolve_one c.taskId m.1
  have hsingle' : start d { c with taskId := c.taskId, maxTasks := some 1 } failed = .ok single :=
    hsingle
  have hworker := start_worker (c := c) (hfs i) hsingle'
  rw [Assignment.resolve_ofNat i.isLt hn'] at hworker
  rw [hworker, ← howner]
  unfold selects
  rw [howns, Bool.and_true, Bool.and_right_comm, Bool.and_comm]

variable (hw : w.Calm c.bucket objects) (hcache : w.cache = {}) (hr : Resumable w.offsets.stored?)

include hn hn' hfs hw hcache

/-- Workers that start with an empty cache form a team. -/
theorem teamOK_start : TeamOK (w.holdings objects) c.bucket fs w := by
  refine ⟨fun i => ?_, fun i => (bucket_start (hfs i) :), ?_, hw.holds⟩
  · rw [hcache]
    exact stateOK_fresh (fresh_start (hfs i)) _
  · intro i j hij key hi
    rw [assignment_start hn' hfs, Assignment.owns_iff hn] at hi
    rw [assignment_start hn' hfs, Bool.eq_false_iff, ne_eq, Assignment.owns_iff hn, hi]
    exact hij

include hr

/-- What each worker of a team gets is a function of what the stores hold. -/
theorem outcomesOf_start (schedule : List (Fin n)) (i : Fin n) :
    outcomesOf i (interleave next schedule fs w).1 =
      served ((fs i).reference (w.holdings objects)).items (schedule.count i) := by
  have hteam := teamOK_start hn hn' hfs hw hcache
  have houtcomes := outcomesOf_interleave next (fun f w => next_eq_pull f w) hr hteam
    hw.faults schedule i
  rw [hcache, course_fresh (fresh_start (hfs i)) hr] at houtcomes
  exact houtcomes

/-- A worker that has come to its end has delivered what a single worker delivers of its keys. -/
theorem recordsOf_worker (htol : c.tolerance = .all)
    (hsingle : start d { c with maxTasks := some 1 } failed = .ok single)
    {schedule : List (Fin n)} {i : Fin n}
    (hdrained : none ∈ outcomesOf i (interleave next schedule fs w).1) :
    recordsOf (outcomesOf i (interleave next schedule fs w).1) =
      ((objects.members.filter single.selects).filter fun m =>
        Assignment.owner hn m.1 = i).flatMap (single.share (w.holdings objects)) := by
  have hselects : objects.members.filter (fs i).selects =
      (objects.members.filter single.selects).filter fun m => Assignment.owner hn m.1 = i := by
    rw [List.filter_filter]
    exact List.filter_congr fun m _ => selects_worker hn hn' hfs hsingle i m
  rw [outcomesOf_start hn hn' hfs hw hcache hr] at hdrained ⊢
  rw [recordsOf_drained ((tolerance_start (hfs i)).trans htol) hdrained,
    share_worker hfs hsingle, ← hselects]
  rfl

/-- The records that a worker delivers are those of objects that it owns. -/
theorem owner_of_mem_interleave (htol : c.tolerance = .all) {schedule : List (Fin n)} {i : Fin n}
    {x : Delivery} (hx : (i, some (.ok x)) ∈ (interleave next schedule fs w).1) :
    ∃ key, x.identity.get? "objectKey" = some (.string key) ∧ Assignment.owner hn key = i := by
  have hmem : some (.ok x) ∈ outcomesOf i (interleave next schedule fs w).1 :=
    List.mem_map.2 ⟨_, List.mem_filter.2 ⟨hx, by simp⟩, rfl⟩
  rw [outcomesOf_start hn hn' hfs hw hcache hr,
    items_reference ((tolerance_start (hfs i)).trans htol)] at hmem
  obtain ⟨l, -, hl⟩ := List.mem_map.1 hmem
  obtain ⟨x', hx', hxx'⟩ := List.mem_map.1 (List.mem_of_getElem? hl)
  cases hxx'
  obtain ⟨m, hm, hshare⟩ := List.mem_flatMap.1 hx'
  refine ⟨m.1, objectKey_of_mem_share hr hshare, ?_⟩
  have howns := (List.mem_filter.1 hm).2
  simp only [selects, Bool.and_eq_true] at howns
  rw [assignment_start hn' hfs] at howns
  exact (Assignment.owns_iff hn i m.1).1 howns.1.2

end Team

/-- **Together the workers of a bucket deliver what a single one delivers.** In any order of their
calls each gets what it would get alone, with a cache of its own; when all have come to the end,
they have delivered the records of a single worker; and all records of an object come from one
worker. -/
theorem interleave_cover {n : Nat} (hn : 0 < n) (hn' : n < pow2 32) {d : Directories}
    {c : FeedConfig} {failed : KeySet} (htol : c.tolerance = .all) {fs : Fin n → Feed}
    (hfs : ∀ i : Fin n, start d
      { c with taskId := some (.ofNat i), maxTasks := some (.ofNat n) } failed = .ok (fs i))
    {w : MemoryWorld} {objects : Dict Body} (hw : w.Calm c.bucket objects)
    (hcache : w.cache = {}) (hr : Resumable w.offsets.stored?) (schedule : List (Fin n)) :
    let rs := (interleave next schedule fs w).1
    (∀ i, outcomesOf i rs = (calls next (schedule.count i) (fs i) w).1) ∧
      (∀ single m, start d { c with maxTasks := some 1 } failed = .ok single →
        (∀ i, none ∈ outcomesOf i rs) → none ∈ (calls next m single w).1 →
        (recordsOf (rs.map (·.2))).Perm (recordsOf (calls next m single w).1)) ∧
      ∀ i j x y, (i, some (.ok x)) ∈ rs → (j, some (.ok y)) ∈ rs →
        x.identity.get? "objectKey" = y.identity.get? "objectKey" → i = j := by
  intro rs
  refine ⟨?_, ?_, ?_⟩
  · intro i
    have halone : w.Calm { c with taskId := some (.ofNat i), maxTasks := some (.ofNat n) }.bucket
        objects := hw
    rw [outcomesOf_start hn hn' hfs hw hcache hr, (calls_of_start (hfs i) halone hcache hr _).1]
  · intro single m hsingle hdrained hdrained'
    have halone : w.Calm { c with maxTasks := some 1 }.bucket objects := hw
    have hall : recordsOf (calls next m single w).1 =
        (objects.members.filter single.selects).flatMap
          (single.share (w.holdings objects)) := by
      rw [(calls_of_start hsingle halone hcache hr m).1] at hdrained' ⊢
      exact recordsOf_drained ((tolerance_start hsingle).trans htol) hdrained'
    -- each object is one of its owner
    have hcover := (perm_flatMap_filter (fun m : String × Body => Assignment.owner hn m.1)
      (objects.members.filter single.selects)).flatMap_right (single.share (w.holdings objects))
    rw [List.flatMap_assoc] at hcover
    rw [hall]
    refine (recordsOf_perm rs).trans (List.Perm.trans (.of_eq ?_) hcover)
    exact List.flatMap_congr fun i _ =>
      recordsOf_worker hn hn' hfs hw hcache hr htol hsingle (hdrained i)
  · intro i j x y hx hy hxy
    obtain ⟨key, hkey, hi⟩ := owner_of_mem_interleave hn hn' hfs hw hcache hr htol hx
    obtain ⟨key', hkey', hj⟩ := owner_of_mem_interleave hn hn' hfs hw hcache hr htol hy
    rw [hkey, hkey'] at hxy
    cases hxy
    exact hi.symm.trans hj

def sampleWorker (i : Fin 2) : Feed :=
  { sampleFeed with filter := { assignment := ⟨i, 2⟩ } }

theorem start_sampleWorker (i : Fin 2) : start ⟨[], [], ""⟩
    { sampleConfig with taskId := some (.ofNat i), maxTasks := some (.ofNat 2) } ∅ =
      .ok (sampleWorker i) := by
  refine start_eq_ok_iff.2 ⟨_, .bytes 2, by cbv, by rfl, ?_⟩
  rw [Assignment.resolve_ofNat i.isLt (by decide)]
  rfl

/-- One worker has an object of one chunk, the other one has the rest. -/
theorem interleave_cover_sample :
    let schedule : List (Fin 2) := [0, 1, 1, 0, 1, 1]
    let rs := (interleave next schedule sampleWorker sampleWorld).1
    (∀ i, outcomesOf i rs = (calls next (schedule.count i) (sampleWorker i) sampleWorld).1) ∧
      (recordsOf (rs.map (·.2))).Perm (recordsOf (calls next 5 sampleFeed sampleWorld).1) := by
  intro schedule rs
  have hsingle : start ⟨[], [], ""⟩ { sampleConfig with maxTasks := some 1 } ∅ = .ok sampleFeed :=
    start_eq_ok_iff.2 ⟨_, .bytes 2, by cbv, by rfl, by rfl⟩
  obtain ⟨halone, hcover, -⟩ := interleave_cover (by decide) (by decide) rfl start_sampleWorker
    calm_sampleWorld rfl resumable_sampleWorld schedule
  have hlength : ∀ i,
      ((sampleWorker i).reference (sampleWorld.holdings sampleObjects)).items.length <
        schedule.count i := by
    intro i
    have hi : i = 0 ∨ i = 1 := by omega
    rcases hi with rfl | rfl <;> cbv
  have hlength' : (sampleFeed.reference (sampleWorld.holdings sampleObjects)).items.length < 5 := by
    cbv
  refine ⟨halone, hcover sampleFeed 5 hsingle (fun i => ?_) ?_⟩
  · rw [halone i, (calls_of_start (start_sampleWorker i) calm_sampleWorld rfl
      resumable_sampleWorld _).1]
    exact none_mem_served_iff.2 (hlength i)
  · rw [(calls_of_start hsingle calm_sampleWorld rfl resumable_sampleWorld _).1]
    exact none_mem_served_iff.2 hlength'

end ObjectFeed.Feed
