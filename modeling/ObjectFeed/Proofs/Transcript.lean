import ObjectFeed.Stream

/-!
# What a body decodes to

A decoder reads every body to an end: each record leaves less to be read. So a body has a
transcript, the records of a full decode and the failure after them, if there is one.

* `Decoder.rank_next`: a record leaves less to be read.
* `Decoder.transcript`, `Body.transcript`: the full decode from a decoder on and of a body.
* `Decoder.pull_of_lt`, `Decoder.pull_of_le`: **what a stream reads after passing over some
  records is the rest of the transcript.**
-/

namespace ObjectFeed

namespace Body

/-- A read of some bytes takes these and no others from a body. -/
theorem size_readFull {n : Nat} {body rest : Body} {b : Bytes}
    (h : body.readFull n = (.ok b, rest)) : body.size = b.length + rest.size := by
  fun_induction readFull n body generalizing b with
  | case1 => simp only [Prod.mk.injEq, Except.ok.injEq] at h; simp [← h.1, ← h.2, size]
  | case2 n c ss hn =>
    simp only [Prod.mk.injEq, Except.ok.injEq] at h
    rw [← h.1, ← h.2, size, size, ← Nat.add_assoc, ← List.length_append, List.take_append_drop]
  | case3 =>
    rename_i n c ss head hn r rest' hr ih
    simp only [Prod.mk.injEq] at h
    obtain ⟨hm, rfl⟩ := h
    cases r with
    | error m => simp [Except.map] at hm
    | ok l =>
      simp only [Except.map, Except.ok.injEq] at hm
      have hall : head = c := by
        refine List.take_of_length_le ?_
        simp only [head, List.length_take] at hn
        omega
      rw [← hm, size, ih hr, List.length_append, hall]
      omega
  | case4 ss | case6 m ss =>
    simp only [Prod.mk.injEq, Except.ok.injEq] at h
    simp [← h.1, ← h.2, size]
  | case5 n ss hn ih => rw [size, ih h]; simp
  | case7 n m ss hn => simp at h

end Body

theorem Chunks.size_next {d d' : Chunks} {r : Record} (h : d.next = (.ok (some r), d')) :
    d'.body.size < d.body.size := by
  unfold Chunks.next at h
  split at h
  · simp at h
  · simp at h
  · rename_i x b body hb
    simp only [Prod.mk.injEq, Except.ok.injEq, Option.some.injEq] at h
    rw [← h.2, Body.size_readFull hb, List.length_cons]
    simp only
    omega

theorem Lines.size_next {d d' : Lines} {r : Record} (h : d.next = (.ok (some r), d')) :
    d'.body.size < d.body.size := by
  fun_induction Lines.next d generalizing d' with
  | case1 | case2 | case3 => simp at h
  | case4 =>
    rename_i d x line body hb next r' hread
    simp only [Prod.mk.injEq] at h
    rw [← h.2, Body.size_readLine hb, List.length_cons]
    simp only [next]
    omega
  | case5 =>
    rename_i d x line body hb next hread ih
    have hle := ih h
    rw [Body.size_readLine hb, List.length_cons]
    simp only [next] at hle
    omega

theorem Varint.length_readUpTo {limit n : Nat} {b rest : Bytes}
    (h : readUpTo limit b = .ok (n, rest)) : rest.length < b.length := by
  fun_induction readUpTo limit b generalizing n with
  | case1 | case2 | case5 => simp at h
  | case3 limit x b hx =>
    simp only [Except.ok.injEq, Prod.mk.injEq] at h
    simp [← h.2]
  | case4 limit x b hx m rest' hm ih =>
    simp only [Except.ok.injEq, Prod.mk.injEq] at h
    obtain ⟨-, rfl⟩ := h
    have := ih hm
    simp only [List.length_cons]
    omega

theorem Varint.length_read {n : Nat} {b rest : Bytes} (h : read b = .ok (n, rest)) :
    rest.length < b.length := by
  unfold read at h
  cases hr : readUpTo maxBytes b with
  | error e => simp [hr, Except.map] at h
  | ok p =>
    obtain ⟨m, rest'⟩ := p
    simp only [hr, Except.map, Except.ok.injEq, Prod.mk.injEq] at h
    rw [← h.2]
    exact length_readUpTo hr

namespace Avro

namespace Datum.Reader

variable {α β : Type}

/-- A reader gives back no more bytes than it was given. -/
def Shrinks (r : Reader α) : Prop :=
  ∀ (b : Bytes) (x : α) (rest : Bytes), r b = some (x, rest) → rest.length ≤ b.length

theorem shrinks_pure (x : α) : Shrinks (pure x) := by
  intro b y rest h
  have h : some (x, b) = some (y, rest) := h
  obtain ⟨-, rfl⟩ : x = y ∧ b = rest := by simpa using h
  exact Nat.le_refl _

theorem shrinks_failure : Shrinks (failure : Reader α) := by
  intro b y rest h
  simp [failure, StateT.failure, Alternative.failure] at h

theorem Shrinks.bind {r : Reader α} {f : α → Reader β} (hr : Shrinks r)
    (hf : ∀ x, Shrinks (f x)) : Shrinks (r >>= f) := by
  intro b y rest h
  obtain ⟨⟨x, mid⟩, hx, hy⟩ := Option.bind_eq_some_iff.1 h
  exact Nat.le_trans (hf x _ _ _ hy) (hr _ _ _ hx)

theorem shrinks_lift (x : Option α) : Shrinks (liftM x : Reader α) := by
  intro b y rest h
  obtain ⟨z, -, hz⟩ := Option.bind_eq_some_iff.1 h
  obtain ⟨-, rfl⟩ : z = y ∧ b = rest := by simpa using hz
  exact Nat.le_refl _

theorem shrinks_natural : Shrinks natural := by
  intro b n rest h
  cases hb : Varint.read b with
  | error e => simp [natural, hb, Except.toOption] at h
  | ok p =>
    obtain rfl : p = (n, rest) := by simpa [natural, hb, Except.toOption] using h
    exact Nat.le_of_lt (Varint.length_read hb)

theorem shrinks_take (n : Nat) : Shrinks (take n) := by
  intro b head rest h
  simp only [take] at h
  split at h
  · simp only [Option.some.injEq, Prod.mk.injEq] at h
    rw [← h.2, List.length_drop]
    omega
  · simp at h

theorem shrinks_length : Shrinks length := by
  refine (shrinks_natural.bind fun n => shrinks_pure _).bind fun n => ?_
  split
  · exact shrinks_pure _
  · exact shrinks_failure

theorem shrinks_counted : Shrinks counted := shrinks_length.bind shrinks_take

end Datum.Reader

namespace Container

open Datum (Reader)
open Datum.Reader

theorem shrinks_blockBytes (c : Container) : Shrinks c.blockBytes := by
  unfold blockBytes
  refine shrinks_counted.bind fun b => (shrinks_take _).bind fun m => ?_
  simp only
  split
  · exact shrinks_failure.bind fun _ => shrinks_lift _
  · exact shrinks_lift _

/-- What is left of a container: the bytes after the current block, then the records in it. -/
def rank (c : Container) : Nat × Nat := (c.rest.length, c.left)

/-- The next block takes some bytes, unless the container ends. -/
theorem length_advance {c c' : Container} (h : c.advance = some c') (hl : c'.left ≠ 0)
    (h0 : c.left = 0) : c'.rest.length < c.rest.length := by
  unfold advance at h
  split at h
  · split at h
    · simp at h
    · obtain rfl := Option.some.inj h
      exact absurd h0 hl
  · simp at h
  · rename_i n rest hread
    obtain ⟨⟨block, rest'⟩, hb, he⟩ := Option.bind_eq_some_iff.1 h
    obtain rfl := Option.some.inj he
    have hle := shrinks_blockBytes c _ _ _ hb
    have hlt := Varint.length_read hread
    simp only
    omega

theorem rank_datum {c c' : Container} {x : Datum} (h : c.datum = some (x, c')) (hl : c.left ≠ 0) :
    c'.rest = c.rest ∧ c'.left < c.left := by
  obtain ⟨⟨y, block⟩, -, he⟩ := Option.bind_eq_some_iff.1 h
  simp only at he
  split at he
  · simp at he
  · simp only [Option.some.injEq, Prod.mk.injEq] at he
    rw [← he.2]
    exact ⟨rfl, by simp only; omega⟩

theorem rank_next {c c' : Container} {r : Record} (h : c.next = (.ok (some r), c')) :
    Prod.Lex (· < ·) (· < ·) c'.rank c.rank := by
  unfold next at h
  split at h
  · simp at h
  · rename_i d hd
    split at h
    · simp at h
    · rename_i hl
      split at h
      · simp at h
      · rename_i x e hx
        obtain ⟨-, rfl⟩ := Prod.mk.inj h
        obtain ⟨hrest, hleft⟩ := rank_datum hx hl
        unfold rank
        rw [hrest]
        split at hd
        · rename_i h0
          exact Prod.Lex.left _ _ (length_advance hd hl h0)
        · obtain rfl := Option.some.inj hd
          exact Prod.Lex.right _ hleft

end Container

end Avro

namespace Parquet.Rows

/-- The number of rows of a batch. -/
def batchLength : Batch → Nat
  | .ok rows => rows.length
  | .error _ => 0

/-- The number of rows of the batches. -/
def batchesLength : List Batch → Nat
  | [] => 0
  | b :: bs => batchLength b + batchesLength bs

theorem length_firstRow {bs bs' : List Batch} {v : Json} {ready : List Json}
    (h : firstRow bs = (.ok (some v), ready, bs')) :
    ready.length + batchesLength bs' < batchesLength bs := by
  fun_induction firstRow bs with
  | case1 | case2 => simp at h
  | case3 bs ih =>
    have := ih h
    simp only [batchesLength, batchLength, List.length_nil] at this ⊢
    omega
  | case4 w vs bs =>
    simp only [Prod.mk.injEq, Except.ok.injEq, Option.some.injEq] at h
    obtain ⟨-, rfl, rfl⟩ := h
    simp only [batchesLength, batchLength, List.length_cons]
    omega

/-- The number of rows that are left. -/
def rank (r : Rows) : Nat := r.ready.length + batchesLength r.batches

theorem rank_next {r r' : Rows} {x : Record} (h : r.next = (.ok (some x), r')) :
    r'.rank < r.rank := by
  unfold next at h
  obtain ⟨v, ready, batches, hf⟩ : ∃ v ready batches,
      firstRow (.ok r.ready :: r.batches) = (v, ready, batches) := ⟨_, _, _, rfl⟩
  rw [hf] at h
  simp only [Prod.mk.injEq] at h
  obtain ⟨hv, rfl⟩ := h
  match v, hv with
  | .ok (some v), _ =>
    have := length_firstRow hf
    simp only [batchesLength, batchLength] at this
    unfold rank
    simp only
    omega
  | .ok none, hv => simp [Except.map] at hv
  | .error _, hv => simp [Except.map] at hv

end Parquet.Rows

namespace Decoder

/-- What is left to be read. -/
def rank : Decoder → Nat × Nat
  | .chunks d => (d.body.size, 0)
  | .lines d => (d.body.size, 0)
  | .container d => d.rank
  | .rows _ d => (d.rank, 0)

/-- **A record leaves less to be read.** -/
theorem rank_next {d d' : Decoder} {r : Record} (h : d.next = (.ok (some r), d')) :
    Prod.Lex (· < ·) (· < ·) d'.rank d.rank := by
  cases d with
  | chunks d =>
    obtain ⟨hr, rfl⟩ := Prod.mk.inj h
    exact Prod.Lex.left _ _ (Chunks.size_next (Prod.ext hr rfl))
  | lines d =>
    obtain ⟨hr, rfl⟩ := Prod.mk.inj h
    exact Prod.Lex.left _ _ (Lines.size_next (Prod.ext hr rfl))
  | container d =>
    obtain ⟨hr, rfl⟩ := Prod.mk.inj h
    exact Avro.Container.rank_next (Prod.ext hr rfl)
  | rows copy d =>
    obtain ⟨hr, rfl⟩ := Prod.mk.inj h
    exact Prod.Lex.left _ _ (Parquet.Rows.rank_next (Prod.ext hr rfl))

end Decoder

/-- What a decoder makes of the rest of a body: records, and the failure after them. -/
structure Transcript where
  records : List Record
  failure : Option DecodeError

/-- How a decoder goes on after the last record. -/
def Transcript.ending (t : Transcript) : Pulled :=
  match t.failure with
  | some e => .failed e
  | none => .ended

/-- All that a decoder still delivers. -/
def Decoder.transcript (d : Decoder) : Transcript :=
  match _h : d.next with
  | (.error e, _) => ⟨[], some e⟩
  | (.ok none, _) => ⟨[], none⟩
  | (.ok (some r), d') => { d'.transcript with records := r :: d'.transcript.records }
termination_by d.rank
decreasing_by all_goals exact rank_next _h

/-- The full decode of a body. -/
def Body.transcript (s : DecoderSettings) (k : OffsetKey) (body : Body) : Transcript :=
  match Decoder.open s body k with
  | .error e => ⟨[], some e⟩
  | .ok d => d.transcript

namespace Decoder

theorem transcript_failed {d d' : Decoder} {e : DecodeError} (h : d.next = (.error e, d')) :
    d.transcript = ⟨[], some e⟩ := by
  rw [transcript]
  split <;> simp_all

theorem transcript_ended {d d' : Decoder} (h : d.next = (.ok none, d')) :
    d.transcript = ⟨[], none⟩ := by
  rw [transcript]
  split <;> simp_all

theorem transcript_record {d d' : Decoder} {r : Record} (h : d.next = (.ok (some r), d')) :
    d.transcript = { d'.transcript with records := r :: d'.transcript.records } := by
  rw [transcript]
  split <;> simp_all

/-- **A stream that passes over some records of a transcript reads the one after them**, and goes
on with the rest. -/
theorem pull_of_lt {d : Decoder} {skip : Nat} (h : skip < d.transcript.records.length) :
    ∃ d' : Decoder, pull skip d = (.record d.transcript.records[skip] d', skip + 1) ∧
      d'.transcript = { d.transcript with records := d.transcript.records.drop (skip + 1) } := by
  induction skip generalizing d with
  | zero =>
    match hd : d.next with
    | (.error e, d') => simp [transcript_failed hd] at h
    | (.ok none, d') => simp [transcript_ended hd] at h
    | (.ok (some r), d') =>
      refine ⟨d', ?_, ?_⟩
      · simp [pull, hd, transcript_record hd]
      · simp [transcript_record hd]
  | succ skip ih =>
    match hd : d.next with
    | (.error e, d') => simp [transcript_failed hd] at h
    | (.ok none, d') => simp [transcript_ended hd] at h
    | (.ok (some r), d') =>
      have ht := transcript_record hd
      have hlt : skip < d'.transcript.records.length := by simpa [ht] using h
      obtain ⟨d'', hp, hrest⟩ := ih hlt
      refine ⟨d'', ?_, ?_⟩
      · rw [pull, hd]
        simp [hp, ht]
      · rw [hrest]
        simp [ht]

/-- **A stream that passes over all records of a transcript ends as the transcript does.** -/
theorem pull_of_le {d : Decoder} {skip : Nat} (h : d.transcript.records.length ≤ skip) :
    pull skip d = (d.transcript.ending, d.transcript.records.length) := by
  induction skip generalizing d with
  | zero =>
    match hd : d.next with
    | (.error e, d') => simp [pull, hd, transcript_failed hd, Transcript.ending]
    | (.ok none, d') => simp [pull, hd, transcript_ended hd, Transcript.ending]
    | (.ok (some r), d') => simp [transcript_record hd] at h
  | succ skip ih =>
    match hd : d.next with
    | (.error e, d') => simp [pull, hd, transcript_failed hd, Transcript.ending]
    | (.ok none, d') => simp [pull, hd, transcript_ended hd, Transcript.ending]
    | (.ok (some r), d') =>
      have ht := transcript_record hd
      have hle : d'.transcript.records.length ≤ skip := by simpa [ht] using h
      rw [pull, hd]
      simp [ih hle, ht, Transcript.ending]

/-- A record is decoded just after those that are passed over. -/
theorem count_of_pull {d d' : Decoder} {skip n : Nat} {r : Record}
    (h : d.pull skip = (.record r d', n)) : n = skip + 1 := by
  rcases Nat.lt_or_ge skip d.transcript.records.length with hlt | hge
  · obtain ⟨d'', hp, -⟩ := pull_of_lt hlt
    rw [hp] at h
    exact (congrArg Prod.snd h).symm
  · rw [pull_of_le hge] at h
    have hending := congrArg Prod.fst h
    unfold Transcript.ending at hending
    split at hending <;> simp at hending

end Decoder

end ObjectFeed
