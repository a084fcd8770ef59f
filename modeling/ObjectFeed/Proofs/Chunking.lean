import ObjectFeed.Proofs.Resumption

/-!
# Chunks and reads

How an object is cut into chunks does not depend on how its bytes arrive. A read may return less
than it is asked for or be interrupted, and the pieces of data in a body may be as short as one
byte: a chunk is filled until it is full, so the chunks begin at the multiples of their size. After
a read that fails there is no short chunk.

* `Body.readFull_eq_read`: filling a buffer is reading into what is left of it until it is full.
* `Body.readFull_of_le`, `Body.readFull_of_lt`: the buffer holds the next bytes of the content,
  wherever the reads end.
* `Bytes.pieces`: the pieces of a fixed size from the start of a sequence on; `Bytes.pieces_ceil` is
  about those of all of it.
* `Chunks.transcript_eq`: **a full decode in chunks is the pieces of the content.**
* `RecordStream.delivers_chunks`: **what a stream in chunks delivers.**
-/

namespace ObjectFeed

namespace Body

/-- An empty piece of data is passed over. -/
theorem readFull_of_empty {n : Nat} (hn : 0 < n) (ss : Body) :
    readFull n (.data [] :: ss) = readFull n ss := by
  have hne : ¬ 0 = n := by omega
  simp only [readFull, List.take_nil, List.length_nil, Nat.sub_zero, if_neg hne]
  obtain ⟨r, rest⟩ := readFull n ss
  cases r <;> rfl

/-- **Filling a buffer is reading into what is left of it until it is full.** No data ends it, and
an interrupted read is made again. -/
theorem readFull_eq_read {n : Nat} (hn : 0 < n) (body : Body) :
    body.readFull n =
      match body.read n with
      | (.data [], rest) => (.ok [], rest)
      | (.data (x :: b), rest) =>
        let (r, rest') := rest.readFull (n - (x :: b).length)
        (r.map ((x :: b) ++ ·), rest')
      | (.interrupted, rest) => rest.readFull n
      | (.failed m, rest) => (.error m, rest) := by
  have hne : n ≠ 0 := by omega
  induction body with
  | nil => rfl
  | cons s ss ih =>
    match s with
    | .interrupted => simp only [readFull, read, if_neg hne]
    | .failed m => simp only [readFull, read, if_neg hne]
    | .data [] =>
      rw [readFull_of_empty hn, ih]
      rfl
    | .data (x :: b) =>
      obtain ⟨n, rfl⟩ : ∃ m, n = m + 1 := ⟨n - 1, by omega⟩
      have hread : read (n + 1) (.data (x :: b) :: ss) =
          (.data (x :: b.take n), .data (b.drop n) :: ss) := rfl
      rw [hread]
      by_cases hlong : n ≤ b.length
      · -- the piece fills the buffer, and no byte is left to be read
        have hhead : ((x :: b).take (n + 1)).length = n + 1 := by
          simp only [List.length_take, List.length_cons]
          omega
        have hleft : n + 1 - (x :: b.take n).length = 0 := by
          simp only [List.length_take, List.length_cons]
          omega
        simp only [hleft]
        simp only [readFull, hhead, if_true]
        simp [Except.map]
      · have htake : b.take n = b := List.take_of_length_le (by omega)
        have hdrop : b.drop n = [] := List.drop_eq_nil_of_le (by omega)
        have hhead : ¬ ((x :: b).take (n + 1)).length = n + 1 := by
          simp only [List.length_take, List.length_cons]
          omega
        have hleft : 0 < n + 1 - (x :: b).length := by
          simp only [List.length_cons]
          omega
        simp only [htake, hdrop, readFull_of_empty hleft]
        simp only [readFull, if_neg hhead]
        rw [List.take_succ_cons, htake]

/-- A buffer that the content can fill holds the start of it. -/
theorem readFull_of_le {n : Nat} {body : Body} (h : n ≤ body.content.1.length) :
    ∃ rest, body.readFull n = (.ok (body.content.1.take n), rest) ∧
      rest.content = (body.content.1.drop n, body.content.2) := by
  fun_induction readFull n body with
  | case1 n =>
    obtain rfl : n = 0 := Nat.le_zero.1 h
    exact ⟨[], rfl, rfl⟩
  | case2 n b ss head hn =>
    have hle : n ≤ b.length := by
      simp only [head, List.length_take] at hn
      omega
    refine ⟨.data (b.drop n) :: ss, ?_, ?_⟩
    · rw [content, List.take_append_of_le_length hle]
    · simp only [content, List.drop_append_of_le_length hle]
  | case3 n b ss head hn r rest hr ih =>
    have hlt : b.length < n := by
      simp only [head, List.length_take] at hn
      omega
    have hhead : head = b := List.take_of_length_le (by omega)
    rw [hhead] at hr ih ⊢
    have hrest : n - b.length ≤ (content ss).1.length := by
      simp only [content, List.length_append] at h
      omega
    obtain ⟨rest', hread, hcontent⟩ := ih hrest
    rw [hr] at hread
    obtain ⟨rfl, rfl⟩ := Prod.mk.inj hread
    have htake : b.take n = b := List.take_of_length_le (Nat.le_of_lt hlt)
    have hdrop : b.drop n = [] := List.drop_eq_nil_of_le (Nat.le_of_lt hlt)
    refine ⟨rest, ?_, ?_⟩
    · simp only [content, Except.map, List.take_append, htake]
    · simp only [hcontent, content, List.drop_append, hdrop, List.nil_append]
  | case4 ss => exact ⟨_, rfl, rfl⟩
  | case5 n ss hn ih => exact ih h
  | case6 m ss => exact ⟨_, rfl, rfl⟩
  | case7 n m ss hn =>
    have : n ≤ 0 := h
    omega

/-- A buffer that is longer than the content holds all of it, unless a read fails. -/
theorem readFull_of_lt {n : Nat} {body : Body} (h : body.content.1.length < n) :
    ∃ rest, (body.content.2 = none → body.readFull n = (.ok body.content.1, rest) ∧
        rest.content = ([], none)) ∧
      ∀ m, body.content.2 = some m → body.readFull n = (.error m, rest) := by
  fun_induction readFull n body with
  | case1 n => exact ⟨[], fun _ => ⟨rfl, rfl⟩, fun m hm => by cases hm⟩
  | case2 n b ss head hn =>
    simp only [content, List.length_append] at h
    simp only [head, List.length_take] at hn
    omega
  | case3 n b ss head hn r rest hr ih =>
    simp only [content, List.length_append] at h
    have hhead : head = b := List.take_of_length_le (by omega)
    rw [hhead] at hr ih ⊢
    obtain ⟨rest', hok, herror⟩ := ih (by omega)
    rw [hr] at hok herror
    refine ⟨rest, fun hnone => ?_, fun m hm => ?_⟩
    · obtain ⟨hread, hcontent⟩ := hok hnone
      obtain ⟨rfl, rfl⟩ := Prod.mk.inj hread
      exact ⟨rfl, hcontent⟩
    · obtain ⟨rfl, -⟩ := Prod.mk.inj (herror m hm)
      rfl
  | case4 ss => exact absurd h (Nat.not_lt_zero _)
  | case5 n ss hn ih => exact ih h
  | case6 m ss => exact absurd h (Nat.not_lt_zero _)
  | case7 n m ss hn =>
    refine ⟨ss, ?_, ?_⟩
    · intro hnone
      cases hnone
    · intro m' hm
      rw [Option.some.inj hm]

/-- The number of chunks: the last one may be short, but a read that fails leaves no short one. -/
def chunkCount (size : Nat) (body : Body) : Nat :=
  match body.content.2 with
  | none => (body.content.1.length + size - 1) / size
  | some _ => body.content.1.length / size

/-- A full chunk is one more than those of the rest. -/
theorem chunkCount_of_le {size : Nat} {body rest : Body} (hsize : 0 < size)
    (h : size ≤ body.content.1.length)
    (hrest : rest.content = (body.content.1.drop size, body.content.2)) :
    body.chunkCount size = rest.chunkCount size + 1 := by
  unfold chunkCount
  rw [hrest]
  simp only [List.length_drop]
  cases body.content.2 with
  | none =>
    have hsum : body.content.1.length + size - 1 =
        body.content.1.length - size + size - 1 + size := by omega
    simp only [hsum, Nat.add_div_right _ hsize]
  | some m =>
    have hsum : body.content.1.length = body.content.1.length - size + size := by omega
    simp only
    rw [hsum, Nat.add_div_right _ hsize, Nat.add_sub_cancel]

end Body

namespace Bytes

/-- The pieces of a fixed size from the start of a sequence on. The last one may be shorter. -/
def pieces (size count : Nat) (b : Bytes) : List Bytes :=
  (List.range count).map fun i => (b.drop (i * size)).take size

theorem pieces_succ (size count : Nat) (b : Bytes) :
    pieces size (count + 1) b = b.take size :: pieces size count (b.drop size) := by
  have hplace : ∀ i, (i + 1) * size = size + i * size := by
    intro i
    rw [Nat.add_mul, Nat.one_mul, Nat.add_comm]
  simp only [pieces, List.range_succ_eq_map, List.map_cons, List.map_map, Nat.zero_mul,
    List.drop_zero, Function.comp_def, Nat.succ_eq_add_one, hplace, List.drop_drop]

theorem length_pieces (size count : Nat) (b : Bytes) : (pieces size count b).length = count := by
  simp only [pieces, List.length_map, List.length_range]

theorem pieces_concat (size count : Nat) (b : Bytes) :
    pieces size (count + 1) b =
      pieces size count b ++ [(b.drop (count * size)).take size] := by
  simp only [pieces, List.range_succ, List.map_append, List.map_singleton]

theorem flatten_pieces (size count : Nat) (b : Bytes) :
    (pieces size count b).flatten = b.take (count * size) := by
  induction count with
  | zero => simp [pieces]
  | succ count ih =>
    rw [pieces_concat, List.flatten_append, ih, List.flatten_singleton, Nat.add_mul, Nat.one_mul,
      List.take_add]

theorem length_of_mem_pieces {size count : Nat} {b c : Bytes} (h : count * size ≤ b.length)
    (hc : c ∈ pieces size count b) : c.length = size := by
  obtain ⟨i, hi, rfl⟩ := List.mem_map.1 hc
  have hlt : i + 1 ≤ count := List.mem_range.1 hi
  have hend : (i + 1) * size ≤ count * size := Nat.mul_le_mul_right size hlt
  rw [Nat.add_mul, Nat.one_mul] at hend
  simp only [List.length_take, List.length_drop]
  omega

/-- **The pieces of a whole sequence** join to it. All of them but the last one are full, and the
last one is not empty. -/
theorem pieces_ceil {size : Nat} (hsize : 0 < size) (b : Bytes) :
    let chunks := pieces size ((b.length + size - 1) / size) b
    chunks.flatten = b ∧ (b = [] → chunks = []) ∧ (∀ c ∈ chunks.dropLast, c.length = size) ∧
      ∀ c, chunks.getLast? = some c → 1 ≤ c.length ∧ c.length ≤ size := by
  intro chunks
  by_cases hb : b = []
  · have hzero : (b.length + size - 1) / size = 0 := by
      rw [hb]
      exact Nat.div_eq_of_lt (by simp only [List.length_nil]; omega)
    have hchunks : chunks = [] := by
      simp only [chunks, hzero]
      rfl
    rw [hchunks, hb]
    exact ⟨rfl, fun _ => rfl, nofun, nofun⟩
  · have hpos : 0 < b.length := List.length_pos_iff.2 hb
    obtain ⟨count, hcount⟩ : ∃ count, count = (b.length - 1) / size := ⟨_, rfl⟩
    have hfloor : count * size ≤ b.length - 1 := hcount ▸ Nat.div_mul_le_self (b.length - 1) size
    have hnext : b.length - 1 < count * size + size :=
      hcount ▸ Nat.lt_div_mul_add (a := b.length - 1) hsize
    have hceil : (b.length + size - 1) / size = count + 1 := by
      have hsum : b.length + size - 1 = b.length - 1 + size := by omega
      rw [hsum, Nat.add_div_right _ hsize, hcount]
    have hsplit : chunks = pieces size count b ++ [(b.drop (count * size)).take size] := by
      simp only [chunks, hceil, pieces_concat]
    refine ⟨?_, fun h => absurd h hb, fun c hc => ?_, fun c hc => ?_⟩
    · simp only [chunks, hceil, flatten_pieces]
      refine List.take_of_length_le ?_
      rw [Nat.add_mul, Nat.one_mul]
      omega
    · rw [hsplit, List.dropLast_concat] at hc
      exact length_of_mem_pieces (by omega) hc
    · rw [hsplit, List.getLast?_concat, Option.some.injEq] at hc
      rw [← hc, List.length_take, List.length_drop]
      omega

end Bytes

namespace Chunks

/-- A chunk as a record. -/
def record (b : Bytes) : Record := { payload := .bytes b }

variable {size : Nat} {body rest : Body}

/-- What a decoder of chunks makes of a buffer that was filled. -/
theorem transcript_of_data {b : Bytes} (hb : b ≠ [])
    (h : body.readFull size = (.ok b, rest)) :
    (Decoder.chunks ⟨size, body⟩).transcript =
      { (Decoder.chunks ⟨size, rest⟩).transcript with
        records := record b :: (Decoder.chunks ⟨size, rest⟩).transcript.records } := by
  obtain ⟨x, b, rfl⟩ := List.exists_cons_of_ne_nil hb
  refine Decoder.transcript_record ?_
  simp only [Decoder.next, next, h, record]

theorem transcript_of_end (h : body.readFull size = (.ok [], rest)) :
    (Decoder.chunks ⟨size, body⟩).transcript = ⟨[], none⟩ := by
  have hnext : (Decoder.chunks ⟨size, body⟩).next = (.ok none, .chunks ⟨size, rest⟩) := by
    simp only [Decoder.next, next, h]
  exact Decoder.transcript_ended hnext

theorem transcript_of_failure {m : String} (h : body.readFull size = (.error m, rest)) :
    (Decoder.chunks ⟨size, body⟩).transcript = ⟨[], some (.readBytes m)⟩ := by
  have hnext : (Decoder.chunks ⟨size, body⟩).next =
      (.error (.readBytes m), .chunks ⟨size, rest⟩) := by
    simp only [Decoder.next, next, h]
  exact Decoder.transcript_failed hnext

/-- **A full decode in chunks is the pieces of the content**, wherever the reads end. -/
theorem transcript_eq (hsize : 0 < size) (body : Body) :
    (Decoder.chunks ⟨size, body⟩).transcript =
      ⟨(Bytes.pieces size (body.chunkCount size) body.content.1).map record,
        body.content.2.map .readBytes⟩ := by
  -- each full chunk leaves less of the content
  induction hlength : body.content.1.length using Nat.strongRecOn generalizing body with
  | _ length ih =>
  by_cases hlong : size ≤ body.content.1.length
  · obtain ⟨rest, hread, hrest⟩ := Body.readFull_of_le hlong
    have hdata : body.content.1.take size ≠ [] := by
      intro hnil
      have := congrArg List.length hnil
      simp only [List.length_take, List.length_nil] at this
      omega
    have hshort : rest.content.1.length < length := by
      rw [hrest, List.length_drop]
      omega
    rw [transcript_of_data hdata hread, ih _ hshort rest rfl, Body.chunkCount_of_le hsize hlong hrest,
      Bytes.pieces_succ, hrest, List.map_cons]
  · obtain ⟨rest, hok, herror⟩ := Body.readFull_of_lt (Nat.lt_of_not_le hlong)
    unfold Body.chunkCount
    cases hfailure : body.content.2 with
    | some m =>
      have hcount : body.content.1.length / size = 0 := Nat.div_eq_of_lt (by omega)
      rw [transcript_of_failure (herror m hfailure)]
      simp only [hcount]
      rfl
    | none =>
      obtain ⟨hread, hrest⟩ := hok hfailure
      by_cases hempty : body.content.1 = []
      · have hcount : (body.content.1.length + size - 1) / size = 0 := by
          rw [hempty]
          exact Nat.div_eq_of_lt (by simp only [List.length_nil]; omega)
        rw [hempty] at hread
        rw [transcript_of_end hread]
        simp only [hcount]
        rfl
      · -- a short chunk is the last one
        have hpos : 0 < body.content.1.length := List.length_pos_iff.2 hempty
        have hcount : (body.content.1.length + size - 1) / size = 1 :=
          Nat.div_eq_of_lt_le (by omega) (by omega)
        have hend : ∃ rest', rest.readFull size = (.ok [], rest') := by
          have hlt : rest.content.1.length < size := by
            rw [hrest]
            exact hsize
          obtain ⟨rest', hok', -⟩ := Body.readFull_of_lt hlt
          rw [hrest] at hok'
          exact ⟨rest', (hok' rfl).1⟩
        obtain ⟨rest', hend⟩ := hend
        have htake : body.content.1.take size = body.content.1 :=
          List.take_of_length_le (by omega)
        rw [transcript_of_data hempty hread, transcript_of_end hend]
        simp only [hcount, Bytes.pieces_succ, htake]
        rfl

end Chunks

namespace RecordStream

variable {σ : Type} [ObjectStore σ] {store : σ} {body : Body} {size : Nat}

/-- **What a stream in chunks delivers** depends on the size of the chunks and the content of the
body alone, whatever reads the content comes in. Without a failure the chunks join to the content,
all but the last one are full, and the last one is not empty. After a failure there are just the
full chunks of the bytes before it, then one error, then nothing. At the end the offset counts the
chunks. -/
theorem delivers_chunks (hsize : 0 < size) (bucket objectKey : String) (o : Offset)
    (hs : Serves store bucket objectKey body) :
    let s := start (.bytes size) bucket objectKey { o with count := 0 }
    let b := body.content.1
    (body.content.2 = none →
      let chunks := Bytes.pieces size ((b.length + size - 1) / size) b
      s.Delivers store (chunks.map Chunks.record) none ∧
        chunks.flatten = b ∧ (b = [] → chunks = []) ∧
        (∀ c ∈ chunks.dropLast, c.length = size) ∧
        (∀ c, chunks.getLast? = some c → 1 ≤ c.length ∧ c.length ≤ size) ∧
        ∀ n, none ∈ (outcomes n s store).1 →
          (outcomes n s store).2.1.offset.count = (b.length + size - 1) / size) ∧
    ∀ m, body.content.2 = some m →
      let chunks := Bytes.pieces size (b.length / size) b
      s.Delivers store (chunks.map Chunks.record) (some (.readBytes m)) ∧
        chunks.flatten = b.take (b.length / size * size) ∧ (∀ c ∈ chunks, c.length = size) ∧
        ∀ n, none ∈ (outcomes n s store).1 →
          (outcomes n s store).2.1.offset.count = b.length / size := by
  intro s b
  have htranscript : body.transcript (.bytes size) o.key =
      ⟨(Bytes.pieces size (body.chunkCount size) b).map Chunks.record,
        body.content.2.map .readBytes⟩ := Chunks.transcript_eq hsize body
  have hdelivers := delivers_start (.bytes size) { o with count := 0 } hs
  simp only [htranscript, List.drop_zero] at hdelivers
  have hcount : ∀ n, none ∈ (outcomes n s store).1 →
      (outcomes n s store).2.1.offset.count = body.chunkCount size := by
    intro n hn
    rw [offset_at_end (.bytes size) { o with count := 0 } hs hn]
    simp only [htranscript, List.length_map, Bytes.length_pieces, Nat.zero_max]
  refine ⟨fun hnone => ?_, fun m hm => ?_⟩
  · have hchunks : body.chunkCount size = (b.length + size - 1) / size := by
      simp only [Body.chunkCount, hnone, b]
    rw [hnone, hchunks] at hdelivers
    rw [hchunks] at hcount
    obtain ⟨hjoin, hempty, hfull, hlast⟩ := Bytes.pieces_ceil hsize b
    exact ⟨hdelivers, hjoin, hempty, hfull, hlast, hcount⟩
  · have hchunks : body.chunkCount size = b.length / size := by
      simp only [Body.chunkCount, hm, b]
    rw [hm, hchunks] at hdelivers
    rw [hchunks] at hcount
    refine ⟨hdelivers, Bytes.flatten_pieces _ _ _, ?_, hcount⟩
    intro c hc
    exact Bytes.length_of_mem_pieces (Nat.div_mul_le_self _ _) hc

/-- A store with an object that comes in short and interrupted reads. -/
def raggedStore : MemoryObjects :=
  { buckets := .ofList
      [("store", .ofList [("c", [.data [1, 2, 3], .interrupted, .data [4], .data [5]])])] }

theorem delivers_chunks_sample :
    let s := start (.bytes 2) "store" "c" { key := ⟨"store", "t", none, "c"⟩ }
    s.Delivers raggedStore ([[1, 2], [3, 4], [5]].map Chunks.record) none ∧
      (outcomes 4 s raggedStore).2.1.offset.count = 3 ∧
      s.Delivers sampleStore ([[7, 8]].map Chunks.record) (some (.readBytes "reset")) := by
  intro s
  have hragged : Serves raggedStore "store" "c"
      [.data [1, 2, 3], .interrupted, .data [4], .data [5]] := ⟨_, rfl⟩
  have hfailing : Serves sampleStore "store" "c" [.data [7, 8, 9], .failed "reset"] := ⟨_, rfl⟩
  obtain ⟨hall, -⟩ := delivers_chunks (by decide : 0 < 2) "store" "c"
    { key := ⟨"store", "t", none, "c"⟩ } hragged
  obtain ⟨-, hfull⟩ := delivers_chunks (by decide : 0 < 2) "store" "c"
    { key := ⟨"store", "t", none, "c"⟩ } hfailing
  obtain ⟨hdelivers, -, -, -, -, hcount⟩ := hall rfl
  have hnone : none ∈ (outcomes 4 s raggedStore).1 := by
    rw [hdelivers 4]
    exact Feed.none_mem_served_iff.2 (by decide)
  exact ⟨hdelivers, hcount 4 hnone, (hfull "reset" rfl).1⟩

end RecordStream

end ObjectFeed
