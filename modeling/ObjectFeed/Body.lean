import ObjectFeed.Bytes

/-!
# Bodies of objects

A body is what successive reads meet: data, reads that are interrupted and have to be repeated,
and reads that fail. No read crosses from one piece of data into the next.

* `Body.read`: one read with a buffer.
* `Body.readFull`, `Body.readLine`, `Body.readAll`: the loops over reads.
* `Body.content`: the bytes before the first failure, and that failure.
-/

namespace ObjectFeed

/-- What reads meet. -/
inductive BodyStep where
  | data (b : Bytes)
  | interrupted
  | failed (message : String)
deriving DecidableEq, Repr

/-- What is still to be read of an object. -/
abbrev Body := List BodyStep

/-- The outcome of one read; at the end of the body it is no data. -/
inductive ReadResult where
  | data (b : Bytes)
  | interrupted
  | failed (message : String)
deriving DecidableEq, Repr

namespace Body

/-- A body that is read without trouble. -/
def ofBytes (b : Bytes) : Body := [.data b]

/-- The number of bytes of the data. -/
def size : Body → Nat
  | [] => 0
  | .data b :: ss => b.length + size ss
  | _ :: ss => size ss

/-- One read of at most `n` bytes. -/
def read (n : Nat) : Body → ReadResult × Body
  | [] => (.data [], [])
  | .data [] :: ss => read n ss
  | .data (x :: b) :: ss => (.data ((x :: b).take n), .data ((x :: b).drop n) :: ss)
  | .interrupted :: ss => (.interrupted, ss)
  | .failed m :: ss => (.failed m, ss)

/-- Reads until `n` bytes are there or the body ends. What a failing read leaves behind is
lost. -/
def readFull : (n : Nat) → Body → Except String Bytes × Body
  | _, [] => (.ok [], [])
  | n, .data b :: ss =>
    let head := b.take n
    if head.length = n then (.ok head, .data (b.drop n) :: ss)
    else
      let (r, rest) := readFull (n - head.length) ss
      (r.map (head ++ ·), rest)
  | n, .interrupted :: ss => if n = 0 then (.ok [], .interrupted :: ss) else readFull n ss
  | n, .failed m :: ss => if n = 0 then (.ok [], .failed m :: ss) else (.error m, ss)

/-- The bytes up to and with the first newline, and the bytes after it. -/
def splitLine : Bytes → Option (Bytes × Bytes)
  | [] => none
  | x :: b => if x = 0x0A then some ([x], b) else (splitLine b).map fun (l, r) => (x :: l, r)

/-- Reads up to and with the next newline, or to the end of the body. -/
def readLine : Body → Except String Bytes × Body
  | [] => (.ok [], [])
  | .data b :: ss =>
    match splitLine b with
    | some (line, rest) => (.ok line, .data rest :: ss)
    | none =>
      let (r, rest) := readLine ss
      (r.map (b ++ ·), rest)
  | .interrupted :: ss => readLine ss
  | .failed m :: ss => (.error m, ss)

theorem append_splitLine {b line rest : Bytes} (h : splitLine b = some (line, rest)) :
    line ++ rest = b := by
  induction b generalizing line with
  | nil => simp [splitLine] at h
  | cons x b ih =>
    simp only [splitLine] at h
    split at h
    · simp only [Option.some.injEq, Prod.mk.injEq] at h
      simp [← h.1, ← h.2]
    · obtain ⟨⟨l, r⟩, hl, he⟩ := Option.map_eq_some_iff.1 h
      simp only [Prod.mk.injEq] at he
      obtain ⟨rfl, rfl⟩ := he
      simp [ih hl]

/-- A line takes its own bytes and no others from a body. -/
theorem size_readLine {body rest : Body} {line : Bytes}
    (h : body.readLine = (.ok line, rest)) : body.size = line.length + rest.size := by
  fun_induction readLine body generalizing line with
  | case1 => simp only [Prod.mk.injEq, Except.ok.injEq] at h; simp [← h.1, ← h.2, size]
  | case2 b ss l r hs =>
    simp only [Prod.mk.injEq, Except.ok.injEq] at h
    rw [← h.1, ← h.2, size, size, ← append_splitLine hs, List.length_append]
    omega
  | case3 b ss hs r rest' hr ih =>
    simp only [Prod.mk.injEq] at h
    obtain ⟨hm, rfl⟩ := h
    cases r with
    | error m => simp [Except.map] at hm
    | ok l =>
      simp only [Except.map, Except.ok.injEq] at hm
      subst hm
      rw [size, ih hr, List.length_append]
      omega
  | case4 ss ih => rw [size]; exact ih h; simp
  | case5 m ss => simp at h

/-- The bytes before the first failure, and that failure. -/
def content : Body → Bytes × Option String
  | [] => ([], none)
  | .data b :: ss => (b ++ (content ss).1, (content ss).2)
  | .interrupted :: ss => content ss
  | .failed m :: _ => ([], some m)

/-- Reads to the end of the body. -/
def readAll (b : Body) : Except String Bytes :=
  match b.content with
  | (bytes, none) => .ok bytes
  | (_, some m) => .error m

end Body

end ObjectFeed
