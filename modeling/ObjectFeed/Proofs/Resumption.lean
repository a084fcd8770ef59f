import ObjectFeed.Proofs.Calls
import ObjectFeed.Proofs.Reading

/-!
# Resuming within an object

A stream that begins at a count delivers what a stream from the start does after as many records,
in every format: the records that are passed over are decoded, so a failure among them is met at
the same place, and a count beyond the end leaves the ending alone.

* `RecordStream.outcomes`: the outcomes of calls in a row.
* `RecordStream.Delivers`: all that a stream delivers, whatever the number of calls.
* `RecordStream.next_items`: a call takes the first of the items that are left.
* `RecordStream.delivers_start`: a stream delivers the transcript of its body from its count on.
* `RecordStream.delivers_resumed`: **from any count on a stream delivers what is left of the
  records, and then ends as the stream from the start does.**
-/

namespace ObjectFeed

/-- The items of a transcript from a place on: records, and the failure after them. -/
def Transcript.items (t : Transcript) (objectKey : String) (place : Nat) :
    List (Except Error Record) :=
  (t.records.drop place).map .ok ++ t.failure.toList.map fun e => .error (.decode objectKey e)

theorem Transcript.items_of_lt {t : Transcript} {place : Nat} (h : place < t.records.length)
    (objectKey : String) :
    t.items objectKey place = .ok t.records[place] :: t.items objectKey (place + 1) := by
  unfold items
  rw [List.drop_eq_getElem_cons h, List.map_cons, List.cons_append]

theorem Transcript.items_of_le {t : Transcript} {place : Nat} (h : t.records.length ≤ place)
    (objectKey : String) :
    t.items objectKey place = t.failure.toList.map fun e => .error (.decode objectKey e) := by
  unfold items
  rw [List.drop_eq_nil_of_le h, List.map_nil, List.nil_append]

/-- The records among the items are those of the transcript. -/
theorem Transcript.records_items (t : Transcript) (objectKey : String) :
    (t.items objectKey 0).filterMap Except.toOption = t.records := by
  unfold items
  rw [List.drop_zero, List.filterMap_append, List.filterMap_map]
  cases t.failure <;> simp [Function.comp_def, Except.toOption]

/-- The next fetch of an object hands out the body. -/
def Serves {σ : Type} [ObjectStore σ] (store : σ) (bucket key : String) (body : Body) : Prop :=
  ∃ store', ObjectStore.fetch store bucket key = (.ok body, store')

namespace RecordStream

variable {σ : Type} [ObjectStore σ]

/-- The outcomes of calls in a row. -/
def outcomes : (n : Nat) → RecordStream → σ →
    List (Option (Except Error Record)) × RecordStream × σ
  | 0, s, store => ([], s, store)
  | n + 1, s, store =>
    match s.next store with
    | (r, s, store) =>
      match outcomes n s store with
      | (rs, s, store) => (r :: rs, s, store)

/-- The stream delivers the records and then ends, with the failure if there is one; after that
there is nothing. -/
def Delivers (s : RecordStream) (store : σ) (records : List Record)
    (ending : Option DecodeError) : Prop :=
  ∀ n, (outcomes n s store).1 =
    Feed.served (Transcript.items ⟨records, ending⟩ s.offset.key.objectKey 0) n

variable {s : RecordStream} {store : σ} {body : Body} {t : Transcript}

/-- What a call does on an open object of which the offset `o` counts what has been delivered. -/
theorem read_items {d : Decoder} {o : Offset} (hd : s.state = .reading d)
    (ht : d.transcript = { t with records := t.records.drop s.offset.count })
    (hc : s.offset.count ≤ t.records.length) (ho : { s.offset with count := o.count } = o)
    (hn : o.count = max s.offset.count s.resumeFrom) (store : σ) :
    ∃ s' store', s.read store = ((t.items o.key.objectKey o.count).head?, s', store') ∧
      ((o.count < t.records.length ∧ s'.Follows t ∧ s'.state ≠ .pending ∧
          s'.offset = o.next) ∨
        (t.records.length ≤ o.count ∧ s'.state = .closed ∧ s'.offset = o)) := by
  rcases read_outcome hd ht hc ho hn store with
    ⟨hlt, s', d', hread, hfollows, hoffset, hstate, -⟩ | ⟨hge, s', hread, hclosed, hoffset⟩
  · rw [Transcript.items_of_lt hlt]
    exact ⟨s', store, hread, .inl ⟨hlt, hfollows, by simp [hstate], hoffset⟩⟩
  · have hhead : (t.items o.key.objectKey o.count).head? =
        t.failure.map fun e => .error (.decode o.key.objectKey e) := by
      rw [Transcript.items_of_le hge]
      cases t.failure <;> rfl
    rw [hhead]
    exact ⟨s', _, hread, .inr ⟨hge, hclosed, hoffset⟩⟩

/-- **A call takes the first of the items that are left**, and after the last record the stream is
closed. -/
theorem next_items (h : s.Follows t) (hopen : s.state = .pending →
      Serves store s.bucket s.objectKey body ∧ t = body.transcript s.settings s.offset.key) :
    ∃ s' store', s.next store =
        ((t.items s.offset.key.objectKey s.offset.count).head?, s', store') ∧
      ((s.offset.count < t.records.length ∧ s'.Follows t ∧ s'.state ≠ .pending ∧
          s'.offset = s.offset.next) ∨
        (t.records.length ≤ s.offset.count ∧ s'.state = .closed ∧ s'.offset = s.offset)) := by
  cases hstate : s.state with
  | closed => simp [Follows, hstate] at h
  | reading d =>
    obtain ⟨hr, hc, ht⟩ : _ ∧ _ ∧ _ := by simpa [Follows, hstate] using h
    have hnext : s.next store = s.read store := by simp [next, RecordStream.open, hstate]
    rw [hnext]
    exact read_items hstate ht hc rfl (Nat.max_eq_left hr).symm store
  | pending =>
    obtain ⟨⟨store', hfetch⟩, rfl⟩ := hopen hstate
    rcases next_of_pending hstate hfetch with ⟨e, ht, hnext⟩ | ⟨d, ht, hnext⟩
    · -- an object that cannot be opened has no records
      rw [ht, Transcript.items_of_le (Nat.zero_le _)]
      exact ⟨{ s with state := .closed }, _, hnext, .inr ⟨Nat.zero_le _, rfl, rfl⟩⟩
    · rw [hnext]
      exact read_items (s := { s with
        state := .reading d, resumeFrom := s.offset.count, offset := s.offset.rewind })
        (o := s.offset) rfl ht (Nat.zero_le _) rfl (Nat.zero_max _).symm _

/-- A closed stream delivers nothing and stays as it is. -/
theorem outcomes_of_closed (h : s.state = .closed) (n : Nat) (store : σ) :
    (outcomes n s store).1 = Feed.served [] n ∧ (outcomes n s store).2.1 = s := by
  have hnext : s.next store = (none, s, store) := by simp [next, RecordStream.open, h, read]
  induction n with
  | zero => exact ⟨rfl, rfl⟩
  | succ n ih =>
    rw [Feed.served_succ]
    unfold outcomes
    rw [hnext]
    exact ⟨congrArg (none :: ·) ih.1, ih.2⟩

/-- Calls in a row deliver the items that are left, and when nothing is left the offset counts all
records, or as many as before if these were more. -/
theorem outcomes_items (n : Nat) (h : s.Follows t) (hopen : s.state = .pending →
      Serves store s.bucket s.objectKey body ∧ t = body.transcript s.settings s.offset.key) :
    (outcomes n s store).1 =
        Feed.served (t.items s.offset.key.objectKey s.offset.count) n ∧
      ((t.items s.offset.key.objectKey s.offset.count).length < n →
        (outcomes n s store).2.1.offset =
          { s.offset with count := max s.offset.count t.records.length }) := by
  induction n generalizing s store with
  | zero => exact ⟨rfl, fun h => absurd h (Nat.not_lt_zero _)⟩
  | succ n ih =>
    obtain ⟨s', store', hnext, hcases⟩ := next_items h hopen
    rw [Feed.served_succ]
    unfold outcomes
    rw [hnext]
    rcases hcases with ⟨hlt, hfollows, hstate, hoffset⟩ | ⟨hle, hstate, hoffset⟩
    · have hopen' : s'.state = .pending → Serves store' s'.bucket s'.objectKey body ∧
          t = body.transcript s'.settings s'.offset.key := fun hp => absurd hp hstate
      obtain ⟨hrest, hlast⟩ := ih hfollows hopen'
      have hkey : s'.offset.key = s.offset.key := by
        rw [hoffset]
        rfl
      have hcount : s'.offset.count = s.offset.count + 1 := by
        rw [hoffset]
        rfl
      rw [hkey, hcount] at hrest hlast
      rw [Transcript.items_of_lt hlt, List.tail_cons]
      refine ⟨congrArg (_ :: ·) hrest, fun hn => (hlast (Nat.lt_of_succ_lt_succ hn)).trans ?_⟩
      rw [hoffset, Nat.max_eq_right hlt, Nat.max_eq_right (Nat.le_of_lt hlt)]
      rfl
    · -- the ending is the last item
      obtain ⟨hrest, hsame⟩ := outcomes_of_closed hstate n store'
      have htail : (t.items s.offset.key.objectKey s.offset.count).tail = [] := by
        rw [Transcript.items_of_le hle]
        cases t.failure <;> rfl
      rw [htail]
      refine ⟨congrArg (_ :: ·) hrest, fun _ => ?_⟩
      rw [Nat.max_eq_left hle, ← hoffset]
      exact congrArg RecordStream.offset hsame

section Start

variable {bucket objectKey : String} (settings : DecoderSettings) (o : Offset)

/-- What a stream that starts at a count delivers, and the offset that it ends with. -/
theorem outcomes_start (hs : Serves store bucket objectKey body) (n : Nat) :
    (outcomes n (start settings bucket objectKey o) store).1 =
        Feed.served ((body.transcript settings o.key).items o.key.objectKey o.count) n ∧
      (((body.transcript settings o.key).items o.key.objectKey o.count).length < n →
        (outcomes n (start settings bucket objectKey o) store).2.1.offset =
          { o with count := max o.count (body.transcript settings o.key).records.length }) :=
  outcomes_items (s := start settings bucket objectKey o) n trivial fun _ => ⟨hs, rfl⟩

/-- A stream delivers the transcript of its body from its count on. -/
theorem delivers_start (hs : Serves store bucket objectKey body) :
    (start settings bucket objectKey o).Delivers store
      ((body.transcript settings o.key).records.drop o.count)
      (body.transcript settings o.key).failure :=
  fun n => (outcomes_start settings o hs n).1

/-- A stream that has come to its end has counted all records. -/
theorem offset_at_end (hs : Serves store bucket objectKey body) {n : Nat}
    (hn : none ∈ (outcomes n (start settings bucket objectKey o) store).1) :
    (outcomes n (start settings bucket objectKey o) store).2.1.offset =
      { o with count := max o.count (body.transcript settings o.key).records.length } := by
  obtain ⟨hitems, hlast⟩ := outcomes_start settings o hs n
  rw [hitems] at hn
  exact hlast (Feed.none_mem_served_iff.1 hn)

end Start

/-- All that a stream delivers is determined by its outcomes. -/
theorem Delivers.unique {records records' : List Record} {ending ending' : Option DecodeError}
    (h : s.Delivers store records ending) (h' : s.Delivers store records' ending') :
    records = records' ∧ ending = ending' := by
  have hitems : Transcript.items ⟨records, ending⟩ s.offset.key.objectKey 0 =
      Transcript.items ⟨records', ending'⟩ s.offset.key.objectKey 0 := by
    refine List.ext_getElem? fun i => ?_
    have hserved := congrArg (·[i]?) ((h (i + 1)).symm.trans (h' (i + 1)))
    simpa [Feed.served] using hserved
  have hrecords := congrArg (List.filterMap Except.toOption) hitems
  rw [Transcript.records_items, Transcript.records_items] at hrecords
  obtain rfl : records = records' := hrecords
  refine ⟨rfl, ?_⟩
  have hendings := List.append_cancel_left hitems
  cases ending <;> cases ending' <;> simp_all

/-- **From any count on a stream delivers what is left.** A stream from the start delivers some
records and then ends, with a failure or without one. From a count on, over the same body, it
delivers the records after as many of them and ends in the same way. When it has come to its end
its offset counts all records, so a stream that starts with that offset delivers no record. -/
theorem delivers_resumed (settings : DecoderSettings) (bucket objectKey : String) (o : Offset)
    (body : Body) (hs : Serves store bucket objectKey body) :
    (∃ records ending,
      (start settings bucket objectKey { o with count := 0 }).Delivers store records ending) ∧
    ∀ records ending,
      (start settings bucket objectKey { o with count := 0 }).Delivers store records ending →
      ∀ (N : Nat) (store' : σ), Serves store' bucket objectKey body →
        let resumed := start settings bucket objectKey { o with count := N }
        resumed.Delivers store' (records.drop N) ending ∧
        ∀ n, none ∈ (outcomes n resumed store').1 →
          (outcomes n resumed store').2.1.offset = { o with count := max N records.length } ∧
          ∀ store'' : σ, Serves store'' bucket objectKey body →
            (start settings bucket objectKey (outcomes n resumed store').2.1.offset).Delivers
              store'' [] ending := by
  have hstart := delivers_start settings { o with count := 0 } hs
  refine ⟨⟨_, _, hstart⟩, fun records ending hdelivers N store' hs' => ?_⟩
  obtain ⟨rfl, rfl⟩ := hdelivers.unique hstart
  refine ⟨delivers_start settings { o with count := N } hs', fun n hn => ?_⟩
  obtain ⟨hitems, hlast⟩ := outcomes_start settings { o with count := N } hs' n
  rw [hitems] at hn
  have hoffset := hlast (Feed.none_mem_served_iff.1 hn)
  refine ⟨hoffset, fun store'' hs'' => ?_⟩
  rw [hoffset]
  have hrest := delivers_start settings
    { o with count := max N (body.transcript settings o.key).records.length } hs''
  rw [List.drop_eq_nil_of_le (Nat.le_max_right _ _)] at hrest
  exact hrest

/-- A store with an object of which a read fails after the first chunk of two bytes. -/
def sampleStore : MemoryObjects :=
  { buckets := .ofList [("store", .ofList [("c", [.data [7, 8, 9], .failed "reset"])])] }

/-- A stream that starts beyond the end meets the failure among the records that it passes over. -/
theorem delivers_resumed_sample :
    (start (.bytes 2) "store" "c" { key := ⟨"store", "t", none, "c"⟩, count := 5 }).Delivers
      sampleStore [] (some (.readBytes "reset")) := by
  have hs : Serves sampleStore "store" "c" [.data [7, 8, 9], .failed "reset"] := ⟨_, rfl⟩
  have ht : Body.transcript (.bytes 2) ⟨"store", "t", none, "c"⟩
      [.data [7, 8, 9], .failed "reset"] = ⟨[{ payload := .bytes [7, 8] }],
        some (.readBytes "reset")⟩ := by
    cbv
  have hstart := delivers_start (.bytes 2) { key := ⟨"store", "t", none, "c"⟩ } hs
  simp only [ht] at hstart
  exact ((delivers_resumed (.bytes 2) "store" "c" { key := ⟨"store", "t", none, "c"⟩ } _ hs).2 _ _
    hstart 5 sampleStore hs).1

end RecordStream

end ObjectFeed
