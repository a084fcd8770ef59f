import ObjectFeed.Proofs.Holding
import ObjectFeed.Proofs.Transcript

/-!
# Reading an object

A stream that resumes opens its object again, decodes all of it from the start and passes over
what its offset counts. What it delivers depends on the offset and the full decode alone.

* `RecordStream.Follows`: what a stream that delivers the records of a transcript remembers.
* `RecordStream.next_cases`: **the next record is the one at the place the offset counts**, and
  after the last one the stream ends as the decode does; or else the store fails, which leaves the
  offset as it was.
-/

namespace ObjectFeed.RecordStream

/-- The stream delivers the records of a transcript that its offset does not count. An open one
has decoded just those that it counts. -/
def Follows (s : RecordStream) (t : Transcript) : Prop :=
  match s.state with
  | .pending => True
  | .reading d =>
    s.resumeFrom ≤ s.offset.count ∧ s.offset.count ≤ t.records.length ∧
      d.transcript = { t with records := t.records.drop s.offset.count }
  | .closed => False

variable {σ : Type} [ObjectStore σ] {s : RecordStream} {t : Transcript} {d : Decoder}

/-- The count that the stream resumes from, or a higher one that it has reached, is the place of
the next record. -/
theorem read_of_lt {n : Nat} (hd : s.state = .reading d)
    (ht : d.transcript = { t with records := t.records.drop s.offset.count })
    (hn : n = max s.offset.count s.resumeFrom) (h : n < t.records.length) (store : σ) :
    ∃ d', s.read store = (some (.ok t.records[n]),
        { s with offset := { s.offset with count := n + 1 }, state := .reading d' }, store) ∧
      d'.transcript = { t with records := t.records.drop (n + 1) } := by
  have hsum : s.offset.count + (s.resumeFrom - s.offset.count) = n := by omega
  have hlt : s.resumeFrom - s.offset.count < d.transcript.records.length := by
    rw [ht, List.length_drop]
    omega
  obtain ⟨d', hp, hd'⟩ := Decoder.pull_of_lt hlt
  refine ⟨d', ?_, ?_⟩
  · simp only [read, hd, hp]
    simp [ht, hsum, ← Nat.add_assoc]
  · rw [hd', ht, List.drop_drop, ← Nat.add_assoc, hsum]

/-- After the last record the stream ends, and its count is not below the one it resumed from. -/
theorem read_of_le {n : Nat} (hd : s.state = .reading d)
    (ht : d.transcript = { t with records := t.records.drop s.offset.count })
    (hc : s.offset.count ≤ t.records.length) (hn : n = max s.offset.count s.resumeFrom)
    (h : t.records.length ≤ n) (store : σ) :
    s.read store = (t.failure.map fun e => .error (.decode s.offset.key.objectKey e),
      { s with offset := { s.offset with count := n }, state := .closed },
      giveBack s.state store) := by
  have hle : d.transcript.records.length ≤ s.resumeFrom - s.offset.count := by
    rw [ht, List.length_drop]
    omega
  have hcount : max (s.offset.count + (t.records.length - s.offset.count)) s.resumeFrom = n := by
    omega
  cases hf : t.failure <;>
    simp [read, hd, Decoder.pull_of_le hle, ht, Transcript.ending, hf, close, Offset.raiseTo,
      hcount]

/-- What reading on from an open stream does, when `o` counts what has been delivered: the stream
has decoded as much, or it still has to pass over some of it. -/
theorem read_outcome {o : Offset} (hd : s.state = .reading d)
    (ht : d.transcript = { t with records := t.records.drop s.offset.count })
    (hc : s.offset.count ≤ t.records.length) (ho : { s.offset with count := o.count } = o)
    (hn : o.count = max s.offset.count s.resumeFrom) (store : σ) :
    (∃ (hlt : o.count < t.records.length) (s' : RecordStream) (d' : Decoder),
      s.read store = (some (.ok t.records[o.count]), s', store) ∧
      s'.Follows t ∧ s'.offset = o.next ∧ s'.state = .reading d' ∧
      s'.settings = s.settings ∧ s'.bucket = s.bucket ∧ s'.objectKey = s.objectKey) ∨
    (t.records.length ≤ o.count ∧ ∃ s' : RecordStream,
      s.read store = (t.failure.map fun e => .error (.decode o.key.objectKey e), s',
        giveBack s.state store) ∧
      s'.state = .closed ∧ s'.offset = o) := by
  have hkey : s.offset.key = o.key := by
    rw [← ho]
  rcases Nat.lt_or_ge o.count t.records.length with hlt | hge
  · obtain ⟨d', hread, hd'⟩ := read_of_lt hd ht hn hlt store
    have hoffset : { s.offset with count := o.count + 1 } = o.next := by
      rw [← ho]
      rfl
    refine .inl ⟨hlt, _, d', hread, ?_, hoffset, rfl, rfl, rfl, rfl⟩
    have hr : s.resumeFrom ≤ o.count + 1 := by omega
    exact ⟨hr, hlt, hd'⟩
  · have hread := read_of_le hd ht hc hn hge store
    rw [hkey] at hread
    exact .inr ⟨hge, _, hread, rfl, ho⟩

/-- The call that opens an object either fails to open it or reads it from its start. -/
theorem next_of_pending {body : Body} {store store' : σ} (hstate : s.state = .pending)
    (hfetch : ObjectStore.fetch store s.bucket s.objectKey = (.ok body, store')) :
    (∃ e, body.transcript s.settings s.offset.key = ⟨[], some e⟩ ∧
      s.next store = (some (.error (.decode s.offset.key.objectKey e)),
        { s with state := .closed }, ObjectStore.release store')) ∨
    ∃ d, d.transcript = body.transcript s.settings s.offset.key ∧
      s.next store =
        ({ s with state := .reading d, resumeFrom := s.offset.count,
                  offset := s.offset.rewind } : RecordStream).read
          (if d.holdsBody then store' else ObjectStore.release store') := by
  cases hd : Decoder.open s.settings body s.offset.key with
  | error e =>
    exact .inl ⟨e, by simp only [Body.transcript, hd],
      by simp [next, RecordStream.open, hstate, hfetch, hd]⟩
  | ok d =>
    exact .inr ⟨d, by simp only [Body.transcript, hd],
      by simp [next, RecordStream.open, hstate, hfetch, hd]⟩

variable [ObjectHolder σ]

theorem holds_giveBack {store : σ} {bucket : String} {objects : Dict Body}
    (h : ObjectHolder.Holds store bucket objects) (state : StreamState) :
    ObjectHolder.Holds (giveBack state store) bucket objects := by
  unfold giveBack
  split
  · split
    · exact ObjectHolder.holds_release h
    · exact h
  · exact h

theorem faults_giveBack (state : StreamState) (store : σ) :
    ObjectHolder.faults (giveBack state store) = ObjectHolder.faults store := by
  unfold giveBack
  split
  · split
    · exact ObjectHolder.faults_release store
    · rfl
  · rfl

/-- What reading on from an open stream can do, when `o` counts what has been delivered: the stream
has decoded as much, or it still has to pass over some of it. -/
theorem read_cases {objects : Dict Body} {store : σ} {o : Offset} (hd : s.state = .reading d)
    (ht : d.transcript = { t with records := t.records.drop s.offset.count })
    (hc : s.offset.count ≤ t.records.length) (ho : { s.offset with count := o.count } = o)
    (hn : o.count = max s.offset.count s.resumeFrom)
    (hs : ObjectHolder.Holds store s.bucket objects) :
    ∃ store', ObjectHolder.Holds store' s.bucket objects ∧
      ObjectHolder.faults store' = ObjectHolder.faults store ∧
      ((∃ (hlt : o.count < t.records.length) (s' : RecordStream) (d' : Decoder),
          s.read store = (some (.ok t.records[o.count]), s', store') ∧
          s'.Follows t ∧ s'.offset = o.next ∧ s'.state = .reading d' ∧
          s'.settings = s.settings ∧ s'.bucket = s.bucket ∧ s'.objectKey = s.objectKey) ∨
        (t.records.length ≤ o.count ∧ ∃ s' : RecordStream,
          s.read store = (t.failure.map fun e => .error (.decode o.key.objectKey e), s', store') ∧
          s'.state = .closed ∧ s'.offset = o)) := by
  rcases read_outcome hd ht hc ho hn store with hrecord | hend
  · exact ⟨store, hs, rfl, .inl hrecord⟩
  · exact ⟨_, holds_giveBack hs _, faults_giveBack _ _, .inr hend⟩

/-- A store keeps what it holds when the body of an object is given back or not. -/
theorem holds_release_of {store : σ} {bucket : String} {objects : Dict Body} (holdsBody : Bool)
    (h : ObjectHolder.Holds store bucket objects) :
    ObjectHolder.Holds (if holdsBody then store else ObjectStore.release store) bucket objects ∧
      ObjectHolder.faults (if holdsBody then store else ObjectStore.release store) =
        ObjectHolder.faults store := by
  cases holdsBody with
  | true => exact ⟨h, rfl⟩
  | false => exact ⟨ObjectHolder.holds_release h, ObjectHolder.faults_release store⟩

/-- What the next call of a stream on a stored object can do. -/
theorem next_cases {body : Body} {objects : Dict Body} {store : σ}
    (h : s.Follows (body.transcript s.settings s.offset.key))
    (hb : objects.get? s.objectKey = some body)
    (hs : ObjectHolder.Holds store s.bucket objects) :
    let t := body.transcript s.settings s.offset.key
    (∃ e store', s.next store = (some (.error (.store e)), { s with state := .closed }, store') ∧
      e.isTransient = true ∧ s.state = .pending ∧ ObjectHolder.Holds store' s.bucket objects ∧
      ObjectHolder.faults store = ObjectHolder.faults store' + 1) ∨
    ∃ store', ObjectHolder.Holds store' s.bucket objects ∧
      ObjectHolder.faults store' = ObjectHolder.faults store ∧
      ((∃ (hlt : s.offset.count < t.records.length) (s' : RecordStream) (d : Decoder),
          s.next store = (some (.ok t.records[s.offset.count]), s', store') ∧
          s'.Follows t ∧ s'.offset = s.offset.next ∧ s'.state = .reading d ∧
          s'.settings = s.settings ∧ s'.bucket = s.bucket ∧ s'.objectKey = s.objectKey) ∨
        (t.records.length ≤ s.offset.count ∧ ∃ s' : RecordStream,
          s.next store = (t.failure.map fun e => .error (.decode s.offset.key.objectKey e),
            s', store') ∧
          s'.state = .closed ∧ s'.offset = s.offset)) := by
  intro t
  cases hstate : s.state with
  | closed => simp [Follows, hstate] at h
  | reading d =>
    obtain ⟨hr, hc, ht⟩ : _ ∧ _ ∧ _ := by simpa [Follows, hstate] using h
    have hopen : s.next store = s.read store := by simp [next, RecordStream.open, hstate]
    rw [hopen]
    exact .inr (read_cases hstate ht hc rfl (Nat.max_eq_left hr).symm hs)
  | pending =>
    rcases ObjectHolder.fetch_cases hs hb with
      ⟨store', hfetch, hs', hf⟩ | ⟨e, store', hfetch, he, hs', hf⟩
    · right
      rcases next_of_pending hstate hfetch with ⟨e, ht, hnext⟩ | ⟨d, ht, hnext⟩
      · have ht : t = ⟨[], some e⟩ := ht
        refine ⟨_, ObjectHolder.holds_release hs', (ObjectHolder.faults_release _).trans hf,
          .inr ⟨by simp [ht], { s with state := .closed }, ?_, rfl, rfl⟩⟩
        rw [hnext, ht]
        rfl
      · -- the open stream has decoded nothing yet and passes over what the offset counted
        let s₀ : RecordStream := { s with
          state := .reading d, resumeFrom := s.offset.count, offset := s.offset.rewind }
        have ht : d.transcript = { t with records := t.records.drop s₀.offset.count } := ht
        obtain ⟨hs₀, hf₀⟩ := holds_release_of d.holdsBody hs'
        have hn : s.offset.count = max s₀.offset.count s₀.resumeFrom := (Nat.zero_max _).symm
        obtain ⟨store'', hholds, hfaults, hread⟩ :=
          read_cases (s := s₀) (o := s.offset) rfl ht (Nat.zero_le _) rfl hn hs₀
        rw [hnext]
        exact ⟨store'', hholds, hfaults.trans (hf₀.trans hf), hread⟩
    · exact .inl ⟨e, store', by simp [next, RecordStream.open, hstate, hfetch], he, rfl, hs', hf⟩

end ObjectFeed.RecordStream
