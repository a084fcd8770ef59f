import ObjectFeed.Proofs.WholeRun

/-!
# Restarts

A worker that is started again goes on after the last delivery whose offset was persisted,
wherever the first run stopped: in the middle of an object, between two objects, after objects
without records or after malformed ones.

* `Feed.reference_persist`: a reference loses its first item when its offset is persisted.
* `World.restarted`: the stores after some deliveries have been persisted, without a cache.
* `Feed.calls_restarted`: **the second run delivers what the first one still had to deliver after
  the persisted part.**
-/

namespace ObjectFeed

theorem Offset.separate_recorded (known : OffsetKey → Option Properties) (k : OffsetKey) :
    (Offset.recorded known k).Separate := by
  unfold recorded
  cases hp : (known k).bind fun p => (ofProperties p).toOption with
  | none => exact fun _ _ => rfl
  | some o =>
    obtain ⟨p, -, ho⟩ := Option.bind_eq_some_iff.1 hp
    refine separate_of_ofProperties (p := p) ?_
    cases hof : ofProperties p with
    | error e => simp [hof, Except.toOption] at ho
    | ok o' => simpa [hof, Except.toOption] using ho

/-- The count in the offset of the delivery is one of 64 bits. -/
def Delivery.CountFits (d : Delivery) : Prop :=
  ∀ n, d.offset.get? "recordCount" = some (.ofNat n) → n < pow2 64

/-- Persists the offsets of deliveries, one after the other. -/
def MemoryOffsets.persist (t : MemoryOffsets) (ds : List Delivery) : MemoryOffsets :=
  ds.foldl (fun t d => t.put d.identity d.offset) t

theorem MemoryOffsets.persist_failures (t : MemoryOffsets) (ds : List Delivery) :
    (t.persist ds).failures = t.failures ∧ (t.persist ds).queued = t.queued := by
  induction ds generalizing t with
  | nil => exact ⟨rfl, rfl⟩
  | cons d ds ih => exact ih (t.put d.identity d.offset)

/-- The world of a worker that is started again: the offsets of some deliveries have been persisted,
and the cache is lost. -/
def World.restarted {σ : Type} (w : World σ MemoryOffsets) (ds : List Delivery) :
    World σ MemoryOffsets :=
  { w with offsets := w.offsets.persist ds, cache := {} }

namespace Feed

variable {f : Feed} {H : Holdings} {persisted : OffsetKey → Option Properties}

/-- An object contributes the same if nothing has been persisted under its identity. -/
theorem contribution_congr {m : String × Body}
    (h : ∀ k, k.objectKey = m.1 → persisted k = H.persisted k) :
    f.contribution { H with persisted } m = f.contribution H m := by
  unfold contribution
  cases hk : f.identify m.1 with
  | none => rfl
  | some k =>
    have hknown := h k (identify_objectKey hk)
    simp only [Offset.recorded, hknown]

/-- A delivery is the first one of some objects, and when its offset is persisted they deliver
what is left. -/
def PersistsFirst (f : Feed) (H : Holdings) (t : Tolerance) (failed : KeySet)
    (ms : List (String × Body)) (d : Delivery) (rest : List (Except Error Delivery)) : Prop :=
  ∃ m ∈ ms, ∃ k, f.identify m.1 = some k ∧
    d.identity = (Offset.recorded H.persisted k).key.properties ∧
    d.offset = (Offset.recorded H.persisted k).next.properties ∧
    ∀ persisted, Offset.recorded persisted k = (Offset.recorded H.persisted k).next →
      (∀ l : OffsetKey, l.objectKey ≠ m.1 → persisted l = H.persisted l) →
      Course.ofYields t failed (ms.flatMap (f.contribution { H with persisted })) =
        { Course.ofYields t failed (ms.flatMap (f.contribution H)) with items := rest }

/-- The first delivery of some objects in a row is the one that is left out once it has been
persisted. -/
theorem persistsFirst {ms : List (String × Body)} (hms : ms.Pairwise fun m n => m.1 ≠ n.1)
    {t : Tolerance} {failed : KeySet} {d : Delivery} {rest : List (Except Error Delivery)}
    (h : (Course.ofYields t failed (ms.flatMap (f.contribution H))).items = .ok d :: rest) :
    f.PersistsFirst H t failed ms d rest := by
  induction ms generalizing failed with
  | nil => simp [Course.ofYields] at h
  | cons m ms ih =>
    obtain ⟨hne, hms⟩ := List.pairwise_cons.1 hms
    -- an object without a delivery is passed over, whatever is persisted for later ones
    have hpass : ∀ failed', (∀ persisted, (∀ l : OffsetKey, l.objectKey = m.1 →
        persisted l = H.persisted l) →
          Course.ofYields t failed ((m :: ms).flatMap (f.contribution { H with persisted })) =
            Course.ofYields t failed' (ms.flatMap (f.contribution { H with persisted }))) →
        f.PersistsFirst H t failed (m :: ms) d rest := by
      intro failed' hskip
      have hself := hskip H.persisted fun _ _ => rfl
      rw [hself] at h
      obtain ⟨m', hm', k, hk, hi, ho, hpersist⟩ := ih hms h
      refine ⟨m', List.mem_cons_of_mem _ hm', k, hk, hi, ho, fun persisted hrec hother => ?_⟩
      rw [hskip persisted fun l hl => hother l (by rw [hl]; exact hne m' hm'), hself]
      exact hpersist persisted hrec hother
    cases hk : f.identify m.1 with
    | none =>
      refine hpass failed fun persisted hsame => ?_
      rw [List.flatMap_cons, contribution_congr hsame, contribution, hk]
      rfl
    | some k =>
      have hm : f.contribution H m =
          [(m.1, (m.2.transcript f.settings k).yield (.recorded H.persisted k) m.1)] := by
        rw [contribution, hk]
      rcases Nat.lt_or_ge (Offset.recorded H.persisted k).count
        (m.2.transcript f.settings k).records.length with hlt | hge
      · -- the first delivery is one of this object
        rw [Transcript.yield_of_lt hlt] at hm
        rw [List.flatMap_cons, hm, List.singleton_append, Course.ofYields_push] at h
        obtain ⟨hd, hrest⟩ := List.cons.inj h
        obtain rfl := Except.ok.inj hd
        refine ⟨m, List.mem_cons_self, k, hk, rfl, rfl, fun persisted hrec hother => ?_⟩
        have hm' : f.contribution { H with persisted } m =
            [(m.1, (m.2.transcript f.settings k).yield
              (Offset.recorded H.persisted k).next m.1)] := by
          simp only [contribution, hk, hrec]
        have hlater : ms.flatMap (f.contribution { H with persisted }) =
            ms.flatMap (f.contribution H) :=
          List.flatMap_congr fun n hn => contribution_congr fun l hl =>
            hother l (by rw [hl]; exact (hne n hn).symm)
        rw [List.flatMap_cons, List.flatMap_cons, hlater, hm', hm, List.singleton_append,
          List.singleton_append, Course.ofYields_push, ← hrest]
        rfl
      · rw [Transcript.yield_of_le hge] at hm
        cases hfailure : (m.2.transcript f.settings k).failure with
        | none =>
          refine hpass failed fun persisted hsame => ?_
          rw [List.flatMap_cons, contribution_congr hsame, hm, hfailure]
          rfl
        | some e =>
          rw [hfailure] at hm
          cases t with
          | none =>
            rw [List.flatMap_cons, hm, List.singleton_append, Option.map_some,
              Course.ofYields_fatal rfl] at h
            simp [Course.push] at h
          | all =>
            refine hpass (failed.insert m.1 ()) fun persisted hsame => ?_
            rw [List.flatMap_cons, contribution_congr hsame, hm, List.singleton_append,
              Option.map_some, Course.ofYields_tolerated rfl]

/-- **A reference loses its first item when its offset is persisted**, and the store stays
resumable. -/
theorem reference_persist {objects : Dict Body} {t : MemoryOffsets} {d : Delivery}
    {rest : List (Except Error Delivery)} (hcount : d.CountFits)
    (hr : Resumable t.stored?) (h : (f.reference ⟨objects, t.stored?⟩).items = .ok d :: rest) :
    Resumable (t.put d.identity d.offset).stored? ∧
      f.reference ⟨objects, (t.put d.identity d.offset).stored?⟩ =
        { f.reference ⟨objects, t.stored?⟩ with items := rest } := by
  have hpairwise : (objects.members.filter f.selects).Pairwise fun m n => m.1 ≠ n.1 :=
    (objects.sorted.sublist List.filter_sublist).imp fun hlt heq => by
      rw [heq] at hlt
      exact String.lt_irrefl _ hlt
  obtain ⟨m, -, k, hk, hidentity, hoffset, hpersist⟩ := persistsFirst hpairwise h
  obtain ⟨o, ho⟩ : ∃ o, o = (Offset.recorded t.stored? k).next := ⟨_, rfl⟩
  have hkey : o.key = k := by
    rw [ho]
    exact Offset.recorded_key hr k
  have hseparate : o.Separate := by
    rw [ho]
    exact Offset.separate_recorded t.stored? k
  have hsmall : o.count < pow2 64 := by
    refine hcount o.count ?_
    have hproperties : d.offset = o.properties := by rw [hoffset, ho]
    rw [hproperties, Offset.get?_properties, if_pos rfl]
  have hput : t.put d.identity d.offset = t.put o.key.properties o.properties := by
    rw [hidentity, hoffset, ho]
    rfl
  have hread := Offset.ofProperties_properties hseparate hsmall
  have hstored : ∀ l, (t.put d.identity d.offset).stored? l =
      if l = k then some o.properties else t.stored? l := by
    intro l
    rw [hput, MemoryOffsets.stored?_put, hkey]
  refine ⟨hput ▸ hr.put hseparate hsmall, hpersist _ ?_ ?_⟩
  · rw [Offset.recorded, hstored, if_pos rfl, Option.bind_some, hread, ← ho]
    rfl
  · intro l hl
    refine (hstored l).trans (if_neg fun heq => hl ?_)
    rw [heq]
    exact identify_objectKey hk

/-- A reference loses the items whose offsets are persisted in their order. -/
theorem reference_persist_all {objects : Dict Body} {t : MemoryOffsets} {ds : List Delivery}
    {rest : List (Except Error Delivery)} (hcount : ∀ d ∈ ds, d.CountFits)
    (hr : Resumable t.stored?)
    (h : (f.reference ⟨objects, t.stored?⟩).items = ds.map .ok ++ rest) :
    Resumable (t.persist ds).stored? ∧
      f.reference ⟨objects, (t.persist ds).stored?⟩ =
        { f.reference ⟨objects, t.stored?⟩ with items := rest } := by
  induction ds generalizing t with
  | nil =>
    refine ⟨hr, ?_⟩
    rw [List.map_nil, List.nil_append] at h
    rw [← h]
    rfl
  | cons d ds ih =>
    obtain ⟨hd, hds⟩ := List.forall_mem_cons.1 hcount
    obtain ⟨hr', hreference⟩ := reference_persist hd hr h
    obtain ⟨hr'', hrest⟩ := ih hds hr' (by rw [hreference]; rfl)
    refine ⟨hr'', hrest.trans ?_⟩
    rw [hreference]

theorem exists_append_of_served {α : Type} {items xs : List α}
    (h : served items xs.length = xs.map some) : ∃ rest, items = xs ++ rest := by
  induction xs generalizing items with
  | nil => exact ⟨items, rfl⟩
  | cons x xs ih =>
    rw [List.length_cons, served_succ, List.map_cons] at h
    obtain ⟨hx, hxs⟩ := List.cons.inj h
    obtain ⟨rest, hrest⟩ := ih hxs
    obtain ⟨items', rfl⟩ := List.head?_eq_some_iff.1 hx
    exact ⟨rest, congrArg (x :: ·) hrest⟩

theorem served_eq_take {α : Type} {items : List α} {n : Nat} (h : n ≤ items.length) :
    served items n = (items.take n).map some := by
  induction n generalizing items with
  | zero => rfl
  | succ n ih =>
    cases items with
    | nil => simp at h
    | cons x items =>
      rw [served_succ, List.tail_cons, ih (Nat.le_of_succ_le_succ h)]
      rfl

theorem drop_served {α : Type} (items : List α) (j n : Nat) :
    (served items (j + n)).drop j = served (items.drop j) n := by
  induction j generalizing items with
  | zero => rw [Nat.zero_add, List.drop_zero, List.drop_zero]
  | succ j ih => rw [Nat.succ_add, served_succ, List.drop_succ_cons, ih, List.drop_tail]

/-- **A second run delivers what the first one had left after the persisted part.** -/
theorem calls_restarted {d : Directories} {c : FeedConfig} {failed : KeySet}
    (hf : start d c failed = .ok f) {w : MemoryWorld} {objects : Dict Body}
    (hw : w.Calm c.bucket objects) (hcache : w.cache = {}) (hr : Resumable w.offsets.stored?)
    {ds : List Delivery} (hds : (calls next ds.length f w).1 = ds.map fun r => some (.ok r))
    {j : Nat} (hj : j ≤ ds.length) (hcount : ∀ d ∈ ds.take j, d.CountFits) (n : Nat) :
    let w' := (calls next ds.length f w).2.2.restarted (ds.take j)
    (calls next n f w').1 = (calls next (j + n) f w).1.drop j := by
  intro w'
  have hfresh := fresh_start hf
  have hbucket := bucket_start hf
  have hholds : w.Holds f.lister.bucket (w.holdings objects) := hbucket ▸ hw.holds
  have hserved := fun m => (calls_of_start hf hw hcache hr m).1
  -- the reference begins with the deliveries of the first run
  obtain ⟨rest, hrest⟩ : ∃ rest, (f.reference (w.holdings objects)).items = ds.map .ok ++ rest := by
    refine exists_append_of_served ?_
    rw [List.length_map, ← hserved, hds, List.map_map]
    rfl
  have hsplit : (f.reference (w.holdings objects)).items =
      (ds.take j).map .ok ++ (f.reference (w.holdings objects)).items.drop j := by
    have htake : (f.reference (w.holdings objects)).items.take j = (ds.take j).map .ok := by
      rw [hrest, List.take_append_of_le_length (by rw [List.length_map]; exact hj), List.map_take]
    rw [← htake, List.take_append_drop]
  -- the first run has left the stores as they were
  have hrun := calls_ok next (fun f w => next_eq_pull f w) hr ds.length
    (by rw [hcache]; exact stateOK_fresh hfresh _) hholds
  obtain ⟨hobjects, hstored, hqueued⟩ := hrun.keeps.holds
  have hfaults : (calls next ds.length f w).2.2.faults = 0 := by
    have := hrun.faults
    rw [hw.faults] at this
    omega
  rw [lister_congr hrun.keeps.setup] at hobjects
  rw [MemoryWorld.holdings, ← show _ = w.offsets.stored? from hstored] at hsplit hserved
  rw [← show _ = w.offsets.stored? from hstored] at hr
  obtain ⟨hr', hreference⟩ := reference_persist_all hcount hr hsplit
  obtain ⟨hfailures', hqueued'⟩ :=
    MemoryOffsets.persist_failures (calls next ds.length f w).2.2.offsets (ds.take j)
  have hholds' : w'.Holds f.lister.bucket ⟨objects, w'.offsets.stored?⟩ := by
    refine ⟨hobjects, rfl, ?_⟩
    show ∀ e ∈ (MemoryOffsets.persist _ _).queued, _
    rw [hqueued']
    exact hqueued
  have hfaults' : w'.faults = 0 := by
    show ObjectHolder.faults _ +
      max (MemoryOffsets.persist _ _).failures (MemoryOffsets.persist _ _).queued.length = 0
    rw [hfailures', hqueued']
    exact hfaults
  rw [(calls_of_fresh hfresh hholds' hfaults' rfl hr' n).1, hserved, drop_served]
  exact congrArg (fun course => served course.items n) hreference

/-- The counts that are persisted with the items of the sample. -/
theorem counts_sampleReference :
    ((sampleFeed.reference (sampleWorld.holdings sampleObjects)).items.map fun x =>
      x.toOption.bind (·.offset.get? "recordCount")) =
        [some (.ofNat 1), some (.ofNat 2), some (.ofNat 1), some (.ofNat 1)] := by
  cbv

theorem countFits_of_mem_sampleReference {d : Delivery}
    (h : .ok d ∈ (sampleFeed.reference (sampleWorld.holdings sampleObjects)).items) :
    d.CountFits := by
  intro n hn
  have hmem : d.offset.get? "recordCount" ∈
      [some (Json.ofNat 1), some (.ofNat 2), some (.ofNat 1), some (.ofNat 1)] := by
    rw [← counts_sampleReference]
    exact List.mem_map.2 ⟨_, h, rfl⟩
  rw [hn] at hmem
  have hvalue : n = 1 ∨ (n : Int) = 2 ∨ n = 1 := by simpa [Json.ofNat, Json.ofInt] using hmem
  have hlimit : 2 < pow2 64 := by decide
  omega

/-- Two of four chunks are delivered, and the offset of the first one is persisted. -/
theorem calls_restarted_sample : ∃ ds : List Delivery, ds.length = 2 ∧
    (calls next ds.length sampleFeed sampleWorld).1 = ds.map (fun r => some (.ok r)) ∧
    let w' := (calls next ds.length sampleFeed sampleWorld).2.2.restarted (ds.take 1)
    (calls next 3 sampleFeed w').1 = (calls next (1 + 3) sampleFeed sampleWorld).1.drop 1 := by
  obtain ⟨all, hall⟩ : ∃ all : List Delivery,
      (sampleFeed.reference (sampleWorld.holdings sampleObjects)).items = all.map .ok :=
    ⟨_, Course.items_ofYields rfl _ _⟩
  have hlength := congrArg List.length counts_sampleReference
  rw [List.length_map] at hlength
  have htwo : (all.take 2).length = 2 := by
    rw [hall, List.length_map] at hlength
    rw [List.length_take, hlength]
    rfl
  have hfirst : (calls next (all.take 2).length sampleFeed sampleWorld).1 =
      (all.take 2).map fun r => some (.ok r) := by
    rw [(calls_of_start start_sampleConfig calm_sampleWorld rfl resumable_sampleWorld _).1, htwo,
      served_eq_take (by rw [hlength]; decide), hall, ← List.map_take, List.map_map]
    rfl
  exact ⟨all.take 2, htwo, hfirst, calls_restarted start_sampleConfig calm_sampleWorld rfl
    resumable_sampleWorld hfirst (by rw [htwo]; decide)
    (fun d hd => countFits_of_mem_sampleReference (by
      rw [hall]
      exact List.mem_map_of_mem (List.mem_of_mem_take (List.mem_of_mem_take hd)))) 3⟩

end Feed

end ObjectFeed
