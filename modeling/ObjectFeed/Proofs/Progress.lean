import ObjectFeed.Proofs.Lifetime

/-!
# The progress of a stream

A stream that resumes counts its object again from the first record on, but nobody sees its count
go back: between two calls the offset counts all records that were decoded, and never fewer than it
counted at first.

* `Decoder.climb`, `RecordStream.increments`: the offset after each increment within the calls.
* `RecordStream.Counting`: what a stream that has decoded some records remembers.
* `RecordStream.counting_next`, `RecordStream.counting_serve`: **calls count on.**
* `RecordStream.count_climbs`: **the progress of a stream never goes back.**
-/

namespace ObjectFeed

/-- The offset after each record that `Decoder.pull` decodes. -/
def Decoder.climb : (skip : Nat) → Decoder → Offset → List Offset
  | skip, d, o =>
    match d.next with
    | (.ok (some _), d) =>
      match skip with
      | 0 => [o.next]
      | skip + 1 => o.next :: Decoder.climb skip d o.next
    | _ => []

/-- The offsets of the increments from one count to another. -/
def Offset.between (o : Offset) (m n : Nat) : List Offset :=
  (List.range' (m + 1) (n - m)).map fun c => { o with count := c }

theorem Offset.length_between (o : Offset) (m n : Nat) : (o.between m n).length = n - m := by
  simp [between]

theorem Offset.between_append (o : Offset) {l m n : Nat} (hm : l ≤ m) (hn : m ≤ n) :
    o.between l m ++ o.between m n = o.between l n := by
  have hstart : m + 1 = l + 1 + (m - l) := by omega
  have hlength : m - l + (n - m) = n - l := by omega
  unfold between
  rw [← List.map_append, hstart, List.range'_append_1, hlength]

/-- **There is one increment for each record that is decoded.** -/
theorem Decoder.climb_eq (skip : Nat) (d : Decoder) (o : Offset) :
    d.climb skip o = o.between o.count (o.count + (d.pull skip).2) := by
  unfold Offset.between
  rw [Nat.add_sub_cancel_left]
  induction skip generalizing d o with
  | zero =>
    rw [climb, pull]
    rcases d.next with ⟨e | _ | r, d'⟩
    · rfl
    · rfl
    · rfl
  | succ skip ih =>
    rw [climb, pull]
    rcases d.next with ⟨e | _ | r, d'⟩
    · rfl
    · rfl
    · show o.next :: d'.climb skip o.next = _
      rw [ih]
      rfl

namespace RecordStream

/-- The offset after each increment of a call that reads on. -/
def climb (s : RecordStream) : List Offset :=
  match s.state with
  | .reading d => d.climb (s.resumeFrom - s.offset.count) s.offset
  | _ => []

section Definitions

variable {σ : Type} [ObjectStore σ]

/-- The offset after each increment within the calls. -/
def increments : List Call → RecordStream → σ → List Offset
  | [], _, _ => []
  | .next :: cs, s, store =>
    (s.open store).2.1.climb ++ increments cs (s.next store).2.1 (s.next store).2.2
  | .close :: cs, s, store => increments cs (s.close store).1 (s.close store).2

/-- The stream resumes from an offset and has decoded `n` records of a transcript, all of them if
it has closed by itself. -/
structure Counting (o : Offset) (t : Transcript) (told : Prop) (n : Nat) (s : RecordStream)
    (store : σ) : Prop where
  floor : s.resumeFrom = o.count
  offset : s.offset = { o with count := max o.count n }
  bound : n ≤ t.records.length
  pending : s.state = .pending → n = 0 ∧ t = s.contents store
  reading : ∀ d, s.state = .reading d →
    o.count ≤ n ∧ d.transcript = { t with records := t.records.drop n }
  closed : s.state = .closed → told ∨ n = t.records.length

end Definitions

section Steps

variable {σ : Type} [ObjectStore σ] {o : Offset} {t : Transcript} {told : Prop} {n : Nat}
variable {s : RecordStream} {store : σ}

/-- A stream that starts has decoded nothing. -/
theorem counting_start (settings : DecoderSettings) (bucket objectKey : String) (o : Offset)
    (store : σ) :
    let s := start settings bucket objectKey o
    s.Counting o (s.contents store) told 0 store where
  floor := rfl
  offset := by rw [Nat.max_zero]; rfl
  bound := Nat.zero_le _
  pending _ := ⟨rfl, rfl⟩
  reading _ h := by cases h
  closed h := by cases h

/-- Closing restores the count that the stream resumed from, which is no change. -/
theorem Counting.close (h : s.Counting o t told n store) (htold : told) :
    (s.close store).1.Counting o t told n (s.close store).2 where
  floor := h.floor
  offset := by
    show s.offset.raiseTo s.resumeFrom = _
    rw [h.offset, h.floor]
    unfold Offset.raiseTo
    rw [Nat.max_eq_left (Nat.le_max_left _ _)]
  bound := h.bound
  pending hp := by cases hp
  reading _ hd := by cases hd
  closed _ := .inl htold

/-- What reading on counts from a place on: the stream has decoded as many records, or it has just
opened its object and its offset counts from zero. -/
theorem counting_read {d : Decoder} (hd : s.state = .reading d)
    (ht : d.transcript = { t with records := t.records.drop n }) (hn : n ≤ t.records.length)
    (ho : s.offset = { o with count := n }) (hfloor : s.resumeFrom = o.count) (store : σ) :
    ∃ n', n ≤ n' ∧ (s.read store).2.1.Counting o t told n' (s.read store).2.2 ∧
      s.climb = o.between n n' ∧
      ∀ r, (s.read store).1 = some (.ok r) → ∃ place, n' = place + 1 ∧ o.count ≤ place ∧
        t.records[place]? = some r := by
  have hcount : s.offset.count = n := by rw [ho]
  have hclimb : s.climb = o.between n (n + (d.pull (o.count - n)).2) := by
    simp only [climb, hd, Decoder.climb_eq, hfloor, hcount]
    rw [ho]
    rfl
  have ht' : d.transcript = { t with records := t.records.drop s.offset.count } := by
    rw [hcount, ht]
  have hplace : max n o.count = max s.offset.count s.resumeFrom := by rw [hcount, hfloor]
  have hleft : d.transcript.records.length = t.records.length - n := by
    rw [ht, List.length_drop]
  rcases Nat.lt_or_ge (max n o.count) t.records.length with hlt | hge
  · -- there is a record at the place that is reached
    obtain ⟨d', hread, hd'⟩ := read_of_lt hd ht' hplace hlt store
    have hskip : o.count - n < d.transcript.records.length := by omega
    obtain ⟨_, hpull, -⟩ := Decoder.pull_of_lt hskip
    rw [hpull, show n + (o.count - n + 1) = max n o.count + 1 by omega] at hclimb
    rw [hread]
    refine ⟨max n o.count + 1, by omega, ?_, hclimb, ?_⟩
    · refine ⟨hfloor, ?_, hlt, fun hp => ?_, fun d'' hd'' => ?_, fun hc => ?_⟩
      · show { s.offset with count := max n o.count + 1 } = _
        rw [ho, show max o.count (max n o.count + 1) = max n o.count + 1 by omega]
      · cases hp
      · obtain rfl : d' = d'' := by simpa using hd''
        exact ⟨by omega, hd'⟩
      · cases hc
    · intro r hr
      obtain rfl : t.records[max n o.count] = r := by simpa using hr
      exact ⟨max n o.count, rfl, Nat.le_max_right _ _, List.getElem?_eq_getElem hlt⟩
  · -- all that is left is decoded, and the stream is closed
    have hbound : s.offset.count ≤ t.records.length := by omega
    have hread := read_of_le hd ht' hbound hplace hge store
    have hskip : d.transcript.records.length ≤ o.count - n := by omega
    rw [Decoder.pull_of_le hskip, hleft,
      show n + (t.records.length - n) = t.records.length by omega] at hclimb
    rw [hread]
    refine ⟨t.records.length, hn, ?_, hclimb, ?_⟩
    · refine ⟨hfloor, ?_, Nat.le_refl _, fun hp => ?_, fun d'' hd'' => ?_, fun _ => .inr rfl⟩
      · show { s.offset with count := max n o.count } = _
        rw [ho, show max n o.count = max o.count t.records.length by omega]
      · cases hp
      · cases hd''
    · intro r hr
      cases hf : t.failure <;> simp [hf] at hr

/-- **A call counts on from what has been decoded**, and a record that it returns is at the place
before the count. -/
theorem counting_next (h : s.Counting o t told n store) :
    ∃ n', n ≤ n' ∧ (s.next store).2.1.Counting o t told n' (s.next store).2.2 ∧
      (s.open store).2.1.climb = o.between n n' ∧
      ∀ r, (s.next store).1 = some (.ok r) → ∃ place, n' = place + 1 ∧ o.count ≤ place ∧
        t.records[place]? = some r := by
  have hnone : o.between n n = [] := by simp [Offset.between]
  cases hstate : s.state with
  | closed =>
    rw [next_of_closed hstate, open_of_opened (by simp [hstate])]
    exact ⟨n, Nat.le_refl _, h, by simp [climb, hstate, hnone], by simp⟩
  | reading d =>
    obtain ⟨hle, ht⟩ := h.reading d hstate
    have hopened : s.state ≠ .pending := by simp [hstate]
    have ho := h.offset
    rw [Nat.max_eq_right hle] at ho
    rw [next_of_opened hopened, open_of_opened hopened]
    exact counting_read hstate ht h.bound ho h.floor store
  | pending =>
    obtain ⟨rfl, ht⟩ := h.pending hstate
    have ho : s.offset = o := by rw [h.offset, Nat.max_zero]
    unfold next
    rcases open_of_pending hstate store with
      ⟨hempty, e, store', hopen⟩ | ⟨d, store', hd, hopen⟩
    · rw [hopen]
      refine ⟨0, Nat.le_refl _, ⟨h.floor, h.offset, h.bound, ?_, ?_, fun _ => .inr ?_⟩,
        hnone.symm, by simp⟩
      · intro hp
        cases hp
      · intro d hd
        cases hd
      · rw [ht, hempty]
        rfl
    · -- the stream that has opened its object counts from zero
      rw [hopen]
      have hd : d.transcript = { t with records := t.records.drop 0 } := hd.trans ht.symm
      exact counting_read rfl hd (Nat.zero_le _) (by rw [ho]; rfl) (by rw [ho]) store'

/-- **Calls count on**, one increment for each record that is decoded. -/
theorem counting_serve (told : Prop) (cs : List Call) (htold : .close ∈ cs → told)
    (h : s.Counting o t told n store) :
    ∃ n', n ≤ n' ∧ (serve cs s store).2.1.Counting o t told n' (serve cs s store).2.2 ∧
      increments cs s store = o.between n n' := by
  induction cs generalizing s store n with
  | nil => exact ⟨n, Nat.le_refl _, h, by simp [increments, Offset.between]⟩
  | cons c cs ih =>
    have hrest : .close ∈ cs → told := fun hmem => htold (List.mem_cons_of_mem _ hmem)
    cases c with
    | close => exact ih hrest (h.close (htold List.mem_cons_self))
    | next =>
      obtain ⟨m, hm, hnext, hclimb, -⟩ := counting_next h
      obtain ⟨n', hn', hserve, hincrements⟩ := ih hrest hnext
      refine ⟨n', Nat.le_trans hm hn', hserve, ?_⟩
      unfold increments
      rw [hclimb, hincrements, Offset.between_append o hm hn']

theorem increments_append (cs ds : List Call) (s : RecordStream) (store : σ) :
    increments (cs ++ ds) s store = increments cs s store ++
      increments ds (serve cs s store).2.1 (serve cs s store).2.2 := by
  induction cs generalizing s store with
  | nil => rfl
  | cons c cs ih =>
    cases c with
    | next => simp only [List.cons_append, increments, serve, ih, List.append_assoc]
    | close => exact ih _ _

end Steps

variable {σ : Type} [ObjectStore σ]

/-- Between calls the offset counts the records that were decoded, or as many as at first. -/
theorem offset_serve (settings : DecoderSettings) (bucket objectKey : String) (o : Offset)
    (store : σ) (cs : List Call) :
    let s := start settings bucket objectKey o
    (serve cs s store).2.1.offset =
      { o with count := max o.count (increments cs s store).length } := by
  intro s
  obtain ⟨n, -, hcounting, hcounted⟩ := counting_serve True cs (fun _ => trivial)
    (counting_start settings bucket objectKey o store)
  rw [hcounted, Offset.length_between]
  exact hcounting.offset

/-- **The progress of a stream never goes back**, whatever it is asked for and however the object
fails. Between calls the offset counts what the stream resumed from, or the records that were
decoded if these are more; after a record it is the place of that. Within the calls the increments
count the records that are decoded from one on, so none overflows unless the object is that long. -/
theorem count_climbs (settings : DecoderSettings) (bucket objectKey : String) (o : Offset)
    (store : σ) (cs : List Call) :
    let s := start settings bucket objectKey o
    let t := s.contents store
    let run := serve cs s store
    let counted := increments cs s store
    run.2.1.offset = { o with count := max o.count counted.length } ∧
      (run.2.1.intoOffset run.2.2).1 = run.2.1.offset ∧
      (∀ more, run.2.1.offset.count ≤ (serve more run.2.1 run.2.2).2.1.offset.count) ∧
      (∀ r, (run.2.1.next run.2.2).1 = some (.ok r) → ∃ place, t.records[place]? = some r ∧
        (run.2.1.next run.2.2).2.1.offset = { o with count := place + 1 }) ∧
      counted = (List.range' 1 counted.length).map (fun c => { o with count := c }) ∧
      counted.length ≤ t.records.length ∧
      (run.2.1.isClosed = true → .close ∉ cs → counted.length = t.records.length) ∧
      (t.records.length < pow2 64 → ∀ i ∈ counted, i.count < pow2 64) := by
  intro s t run counted
  have hoffset : run.2.1.offset = { o with count := max o.count counted.length } :=
    offset_serve settings bucket objectKey o store cs
  obtain ⟨n, -, hcounting, hcounted⟩ := counting_serve (.close ∈ cs) cs id
    (counting_start settings bucket objectKey o store)
  have hbetween : counted = (List.range' 1 n).map (fun c => { o with count := c }) := hcounted
  obtain rfl : counted.length = n := by rw [hbetween, List.length_map, List.length_range']
  refine ⟨hoffset, ?_, fun more => ?_, fun r hr => ?_, hbetween, hcounting.bound,
    fun hclosed htold => ?_, fun hshort i hi => ?_⟩
  · show run.2.1.offset.raiseTo run.2.1.resumeFrom = run.2.1.offset
    rw [hcounting.floor, hoffset]
    unfold Offset.raiseTo
    rw [Nat.max_eq_left (Nat.le_max_left _ _)]
  · have hmore : (serve (cs ++ more) s store).2.1.offset =
        { o with count := max o.count (increments (cs ++ more) s store).length } :=
      offset_serve settings bucket objectKey o store (cs ++ more)
    rw [serve_append, increments_append, List.length_append] at hmore
    show run.2.1.offset.count ≤ (serve more (serve cs s store).2.1 _).2.1.offset.count
    rw [hmore, hoffset]
    show max o.count counted.length ≤ max o.count (counted.length + _)
    omega
  · obtain ⟨n', -, hnext, -, hplace⟩ := counting_next hcounting
    obtain ⟨place, rfl, hle, hrecord⟩ := hplace r hr
    refine ⟨place, hrecord, ?_⟩
    rw [hnext.offset, Nat.max_eq_right (Nat.le_succ_of_le hle)]
  · exact (hcounting.closed (isClosed_iff.1 hclosed)).resolve_left htold
  · rw [hbetween, List.mem_map] at hi
    obtain ⟨c, hc, rfl⟩ := hi
    have hlast := List.mem_range'_1.1 hc
    have hbound : counted.length ≤ t.records.length := hcounting.bound
    show c < pow2 64
    omega

/-- An object that fails after its first record, below the count that the stream resumes from. -/
example :
    let s := start (.bytes 2) "store" "c" { key := ⟨"store", "t", none, "c"⟩, count := 5 }
    (increments [.next, .next] s sampleStore).map Offset.count = [1] ∧
      (serve [.next, .next] s sampleStore).2.1.offset.count = 5 := by
  cbv

end RecordStream

end ObjectFeed
