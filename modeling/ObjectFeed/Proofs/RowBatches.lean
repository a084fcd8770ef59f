import ObjectFeed.Parquet.Rows

/-!
# Rows and batches

The rows of a columnar file are read in batches and delivered one at a time. Where one batch ends
and the next one begins makes no difference: a batch may have any number of rows, none among them,
and one that cannot be read fails only after the rows of the batches before it.

* `Rows.outcomes`: calls in a row.
* `Rows.Holds`: the rows that are left in front of a rest of the batches.
* `Rows.Holds.next_row`, `Rows.Holds.next_rest`: what a call does with them.
* `Rows.Holds.outcomes_append`: **the rows come first, one by one, and the rest comes after them.**
* `Rows.delivers_batches`: **what is delivered of any batches**, and that a closed reader has no
  row.
-/

namespace ObjectFeed.Parquet.Rows

/-- The outcomes of calls in a row. -/
def outcomes : (n : Nat) → Rows → List (Except DecodeError (Option Record)) × Rows
  | 0, r => ([], r)
  | n + 1, r =>
    match r.next with
    | (x, r) =>
      match outcomes n r with
      | (xs, r) => (x :: xs, r)

theorem outcomes_of_next {r r' : Rows} {x : Except DecodeError (Option Record)}
    (h : r.next = (x, r')) (n : Nat) :
    outcomes (n + 1) r = (x :: (outcomes n r').1, (outcomes n r').2) := by
  rw [outcomes, h]

/-- Just these rows are left in front of a rest of the batches. -/
def Holds (r : Rows) (rows : List Json) (rest : List Batch) : Prop :=
  ∃ batches : List (List Json),
    r.batches = batches.map .ok ++ rest ∧ r.ready ++ batches.flatten = rows

/-- The first row of batches that can be read is the first one of all their rows. -/
theorem firstRow_of_cons {v : Json} {rows : List Json} {batches : List (List Json)}
    (h : batches.flatten = v :: rows) (rest : List Batch) :
    ∃ ready batches',
      firstRow (batches.map .ok ++ rest) =
        (.ok (some v), ready, List.map .ok batches' ++ rest) ∧
      ready ++ batches'.flatten = rows := by
  induction batches with
  | nil => cases h
  | cons b batches ih =>
    cases b with
    | nil =>
      -- a batch without rows is passed over
      obtain ⟨ready, batches', hfirst, hrows⟩ := ih h
      exact ⟨ready, batches', hfirst, hrows⟩
    | cons w ready =>
      rw [List.flatten_cons, List.cons_append] at h
      obtain ⟨rfl, hrows⟩ := List.cons.inj h
      exact ⟨ready, batches, rfl, hrows⟩

/-- Batches without rows are passed over. -/
theorem firstRow_of_nil {batches : List (List Json)} (h : batches.flatten = [])
    (rest : List Batch) : firstRow (batches.map .ok ++ rest) = firstRow rest := by
  induction batches with
  | nil => rfl
  | cons b batches ih =>
    rw [List.flatten_cons, List.append_eq_nil_iff] at h
    obtain ⟨rfl, hbatches⟩ := h
    exact ih hbatches

namespace Holds

variable {r : Rows} {v : Json} {rows : List Json} {rest : List Batch}

/-- The rows that wait and the batches that were not read yet are one sequence of batches. -/
theorem exists_batches (h : r.Holds rows rest) : ∃ batches : List (List Json),
    .ok r.ready :: r.batches = batches.map .ok ++ rest ∧ batches.flatten = rows := by
  obtain ⟨batches, hbatches, hrows⟩ := h
  exact ⟨r.ready :: batches, by rw [hbatches]; rfl, hrows⟩

/-- **A call delivers the first of the rows that are left.** -/
theorem next_row (h : r.Holds (v :: rows) rest) : ∃ r',
    r.next = (.ok (some (r.record v)), r') ∧ r'.Holds rows rest ∧
      r'.description = r.description := by
  obtain ⟨batches, hbatches, hrows⟩ := h.exists_batches
  obtain ⟨ready, batches', hfirst, hrest⟩ := firstRow_of_cons hrows rest
  refine ⟨{ r with ready, batches := batches'.map .ok ++ rest }, ?_, ⟨batches', rfl, hrest⟩, rfl⟩
  rw [next, hbatches, hfirst]
  rfl

/-- **A call without a row left goes on with the rest**, as if nothing had been in front of it. -/
theorem next_rest (h : r.Holds [] rest) :
    r.next = next { r with ready := [], batches := rest } := by
  obtain ⟨batches, hbatches, hrows⟩ := h.exists_batches
  have hfirst := firstRow_of_nil hrows rest
  have hempty : firstRow (.ok [] :: rest) = firstRow rest := rfl
  unfold next
  rw [hbatches, hfirst, hempty]
  rfl

/-- **The rows come first, one by one, and the rest comes after them.** By induction on the rows,
each of which takes one call. -/
theorem outcomes_append (h : r.Holds rows rest) (n : Nat) :
    (outcomes (rows.length + n) r).1 =
      rows.map (fun v => .ok (some (r.record v))) ++
        (outcomes n { r with ready := [], batches := rest }).1 := by
  induction rows generalizing r with
  | nil =>
    rw [List.map_nil, List.nil_append, List.length_nil, Nat.zero_add]
    cases n with
    | zero => rfl
    | succ n =>
      unfold outcomes
      rw [h.next_rest]
  | cons v rows ih =>
    obtain ⟨r', hnext, hrest, hdescription⟩ := h.next_row
    have hlater := ih hrest
    have hrecord : r'.record = r.record := by
      funext w
      rw [record, hdescription]
      rfl
    have hlength : (v :: rows).length + n = rows.length + n + 1 := by
      rw [List.length_cons]
      omega
    rw [hrecord, hdescription] at hlater
    rw [hlength, outcomes_of_next hnext, hlater]
    rfl

end Holds

/-- With nothing left a call delivers nothing and changes nothing. -/
theorem outcomes_of_nothing (r : Rows) (n : Nat) :
    outcomes n { r with ready := [], batches := [] } =
      (List.replicate n (.ok none), { r with ready := [], batches := [] }) := by
  induction n with
  | zero => rfl
  | succ n ih =>
    have hnext : next { r with ready := [], batches := [] } =
        (.ok none, { r with ready := [], batches := [] }) := rfl
    rw [outcomes_of_next hnext, ih]
    rfl

/-- **Where batches begin and end makes no difference.** The rows that wait and those of all
batches, be they many, few or none in a batch, are delivered in order and each of them once. After
the last one there is nothing, however often more is asked for; or else, if a batch fails, its
failure comes after the rows of all batches before it. A reader that is closed, whatever it has in
front of it, has no row and delivers none. -/
theorem delivers_batches (description : String) (ready : List Json)
    (batches : List (List Json)) :
    let rows := ready ++ batches.flatten
    let delivered := rows.map fun v =>
      (.ok (some { schema := some description, payload := .structured v }) :
        Except DecodeError (Option Record))
    (∀ n, (outcomes (rows.length + n) ⟨description, batches.map .ok, ready⟩).1 =
      delivered ++ List.replicate n (.ok none)) ∧
    (∀ (e : DecodeError) (later : List Batch),
      (outcomes (rows.length + 1) ⟨description, batches.map .ok ++ .error e :: later, ready⟩).1 =
        delivered ++ [.error e]) ∧
    ∀ (all : List Batch) (n m : Nat),
      let closed := (outcomes n ⟨description, all, ready⟩).2.close
      closed.ready = [] ∧ closed.batches = [] ∧
        outcomes m closed = (List.replicate m (.ok none), closed) := by
  intro rows delivered
  refine ⟨fun n => ?_, fun e later => ?_, fun all n m => ?_⟩
  · have hholds : Holds ⟨description, batches.map .ok, ready⟩ rows [] :=
      ⟨batches, (List.append_nil _).symm, rfl⟩
    rw [hholds.outcomes_append, outcomes_of_nothing]
    rfl
  · have hholds : Holds ⟨description, batches.map .ok ++ .error e :: later, ready⟩ rows
        (.error e :: later) := ⟨batches, rfl, rfl⟩
    have hfails : next ⟨description, .error e :: later, []⟩ =
        (.error e, ⟨description, later, []⟩) := rfl
    rw [hholds.outcomes_append, outcomes_of_next hfails]
    rfl
  · exact ⟨rfl, rfl, outcomes_of_nothing _ m⟩

end ObjectFeed.Parquet.Rows
