import ObjectFeed.Proofs.Loans
import ObjectFeed.Proofs.Resumption

/-!
# The life of a stream

A stream is asked for records, closed and given up, in any order and over a store that may answer
anything. It asks for its object at most once, when the first thing that happens to it is that a
record is wanted, and gives the body back once. When it is closed it stays as it is.

* `RecordStream.Call`, `RecordStream.serve`: calls in a row.
* `RecordStream.contents`: what there is to decode of the object of a stream.
* `RecordStream.open_of_pending`, `RecordStream.read_of_reading`: the cases of a call.
* `RecordStream.account`: what the store has been asked and what it is still owed, which **calls on
  an opened stream do not change**.
* `RecordStream.fate`: what becomes of the object of a stream.
* `RecordStream.state_of_next`: a stream that returns no record is closed.
* `RecordStream.released_once`: **a stream opens its object once and releases it once.**
-/

namespace ObjectFeed.RecordStream

/-- What is asked of a stream until it is given up. -/
inductive Call where
  | next
  | close
deriving DecidableEq

section Calls

variable {σ σ' : Type} [ObjectStore σ] [ObjectStore σ']

/-- Calls in a row, with the outcomes of those for a record. -/
def serve : List Call → RecordStream → σ →
    List (Option (Except Error Record)) × RecordStream × σ
  | [], s, store => ([], s, store)
  | .next :: cs, s, store =>
    let rest := serve cs (s.next store).2.1 (s.next store).2.2
    ((s.next store).1 :: rest.1, rest.2)
  | .close :: cs, s, store => serve cs (s.close store).1 (s.close store).2

theorem serve_append (cs ds : List Call) (s : RecordStream) (store : σ) :
    serve (cs ++ ds) s store =
      ((serve cs s store).1 ++ (serve ds (serve cs s store).2.1 (serve cs s store).2.2).1,
        (serve ds (serve cs s store).2.1 (serve cs s store).2.2).2) := by
  induction cs generalizing s store with
  | nil => rfl
  | cons c cs ih =>
    cases c with
    | next => simp only [List.cons_append, serve, ih]
    | close => exact ih _ _

/-- Calls do the same over a view. -/
theorem serve_view {φ : σ → σ'} (hφ : ObjectView φ) (cs : List Call) (s : RecordStream)
    (store : σ) : serve cs s (φ store) =
      ((serve cs s store).1, (serve cs s store).2.1, φ (serve cs s store).2.2) := by
  induction cs generalizing s store with
  | nil => rfl
  | cons c cs ih =>
    cases c with
    | next => simp only [serve, next_view hφ, ih]
    | close =>
      have hclose : s.close (φ store) = ((s.close store).1, φ (s.close store).2) := by
        simp only [close, giveBack_view hφ]
      simp only [serve, hclose, ih]

end Calls

section Cases

variable {σ : Type} [ObjectStore σ] {s : RecordStream}

/-- The full decode of the object, which has no records if it is not handed out. -/
def contents (s : RecordStream) (store : σ) : Transcript :=
  match (ObjectStore.fetch store s.bucket s.objectKey).1 with
  | .ok body => body.transcript s.settings s.offset.key
  | .error _ => ⟨[], none⟩

/-- An object that cannot be opened has no records, and one that can is decoded from its start. -/
theorem open_of_pending (h : s.state = .pending) (store : σ) :
    ((s.contents store).records = [] ∧
      ∃ e store', s.open store = (some e, { s with state := .closed }, store')) ∨
    ∃ d store', d.transcript = s.contents store ∧
      s.open store = (none,
        { s with state := .reading d, resumeFrom := s.offset.count, offset := s.offset.rewind },
        store') := by
  unfold RecordStream.open contents
  rw [h]
  generalize ObjectStore.fetch store s.bucket s.objectKey = out
  obtain ⟨answer, store'⟩ := out
  cases answer with
  | error e => exact .inl ⟨rfl, _, _, rfl⟩
  | ok body =>
    simp only [Body.transcript]
    cases Decoder.open s.settings body s.offset.key with
    | error e => exact .inl ⟨rfl, _, _, rfl⟩
    | ok d => exact .inr ⟨d, _, rfl, rfl⟩

/-- An object is asked for once. -/
theorem open_of_opened (h : s.state ≠ .pending) (store : σ) : s.open store = (none, s, store) := by
  unfold RecordStream.open
  cases hstate : s.state with
  | pending => exact (h hstate).elim
  | reading | closed => rfl

theorem next_of_opened (h : s.state ≠ .pending) (store : σ) : s.next store = s.read store := by
  unfold next
  rw [open_of_opened h]

/-- A call that opens the object fails or reads on. -/
theorem next_of_open (s : RecordStream) (store : σ) :
    (∃ e, (s.open store).1 = some e ∧ s.next store = (some (.error e), (s.open store).2)) ∨
      (s.open store).1 = none ∧
        s.next store = (s.open store).2.1.read (s.open store).2.2 := by
  unfold next
  generalize s.open store = out
  obtain ⟨failure, s', store'⟩ := out
  cases failure with
  | some e => exact .inl ⟨e, rfl, rfl⟩
  | none => exact .inr ⟨rfl, rfl⟩

/-- Reading on returns a record, or it closes the stream. -/
theorem read_of_reading {d : Decoder} (h : s.state = .reading d) (store : σ) :
    ∃ n, (∃ r d', d.pull (s.resumeFrom - s.offset.count) = (.record r d', n) ∧
        s.read store = (some (.ok r),
          { s with
            state := .reading d', offset := { s.offset with count := s.offset.count + n } },
          store)) ∨
      ∃ outcome, (∀ r, outcome ≠ some (.ok r)) ∧ s.read store = (outcome,
        { s with offset := { s.offset with count := s.offset.count + n } }.close store) := by
  unfold read
  rw [h]
  obtain ⟨⟨p, n⟩, hpull⟩ : ∃ out, d.pull (s.resumeFrom - s.offset.count) = out := ⟨_, rfl⟩
  refine ⟨n, ?_⟩
  simp only [hpull]
  cases p with
  | record r d' => exact .inl ⟨r, d', rfl, rfl⟩
  | ended | failed => exact .inr ⟨_, by simp, rfl⟩

theorem next_of_closed (h : s.state = .closed) (store : σ) : s.next store = (none, s, store) := by
  simp [next, RecordStream.open, h, read]

end Cases

section Closed

variable {σ : Type} [ObjectStore σ] {s : RecordStream}

theorem isClosed_iff : s.isClosed = true ↔ s.state = .closed := by
  unfold isClosed
  cases s.state <;> simp

/-- A stream that is not open counts at least what it resumes from. -/
def Floored (s : RecordStream) : Prop :=
  match s.state with
  | .reading _ => True
  | _ => s.resumeFrom ≤ s.offset.count

theorem floored_close (s : RecordStream) (store : σ) : (s.close store).1.Floored :=
  Nat.le_max_right _ _

theorem floored_open (h : s.Floored) (store : σ) : (s.open store).2.1.Floored := by
  by_cases hstate : s.state = .pending
  · have hfloor : s.resumeFrom ≤ s.offset.count := by simpa only [Floored, hstate] using h
    rcases open_of_pending hstate store with ⟨-, e, store', hopen⟩ | ⟨d, store', -, hopen⟩
    · rw [hopen]
      exact hfloor
    · rw [hopen]
      trivial
  · rw [open_of_opened hstate]
    exact h

theorem floored_read (h : s.Floored) (store : σ) : (s.read store).2.1.Floored := by
  cases hstate : s.state with
  | pending | closed => simpa only [read, hstate] using h
  | reading d =>
    rcases read_of_reading hstate store with ⟨n, ⟨r, d', -, hread⟩ | ⟨outcome, -, hread⟩⟩
    · rw [hread]
      trivial
    · rw [hread]
      exact floored_close _ store

theorem floored_next (h : s.Floored) (store : σ) : (s.next store).2.1.Floored := by
  have hopen := floored_open h store
  rcases next_of_open s store with ⟨e, -, hnext⟩ | ⟨-, hnext⟩
  · rw [hnext]
    exact hopen
  · rw [hnext]
    exact floored_read hopen _

theorem floored_serve (h : s.Floored) (cs : List Call) (store : σ) :
    (serve cs s store).2.1.Floored := by
  induction cs generalizing s store with
  | nil => exact h
  | cons c cs ih =>
    cases c with
    | next => exact ih (floored_next h store) _
    | close => exact ih (floored_close s store) _

theorem close_of_closed (h : s.state = .closed) (hfloor : s.Floored) (store : σ) :
    s.close store = (s, store) := by
  have hle : s.resumeFrom ≤ s.offset.count := by simpa only [Floored, h] using hfloor
  have hraise : s.offset.raiseTo s.resumeFrom = s.offset := by
    unfold Offset.raiseTo
    rw [Nat.max_eq_left hle]
  simp only [close, giveBack, h, hraise]
  rw [← h]

/-- A closed stream has nothing to return, and nothing happens to it or to the store. -/
theorem serve_of_closed (h : s.state = .closed) (hfloor : s.Floored) (cs : List Call)
    (store : σ) : serve cs s store = (List.replicate (cs.count .next) none, s, store) := by
  induction cs with
  | nil => rfl
  | cons c cs ih =>
    cases c with
    | next =>
      simp only [serve, next_of_closed h, ih, List.count_cons_self]
      rfl
    | close =>
      simp only [serve, close_of_closed h hfloor, ih]
      rfl

/-- A stream whose object cannot be opened is closed. -/
theorem state_of_open (s : RecordStream) (store : σ) :
    (s.open store).1 = none ∨ (s.open store).2.1.state = .closed := by
  by_cases hstate : s.state = .pending
  · rcases open_of_pending hstate store with ⟨-, e, store', hopen⟩ | ⟨d, store', -, hopen⟩
    · rw [hopen]
      exact .inr rfl
    · rw [hopen]
      exact .inl rfl
  · rw [open_of_opened hstate]
    exact .inl rfl

theorem state_of_read (h : s.state ≠ .pending) (store : σ) :
    (∃ r d, (s.read store).1 = some (.ok r) ∧ (s.read store).2.1.state = .reading d) ∨
      ((∀ r, (s.read store).1 ≠ some (.ok r)) ∧ (s.read store).2.1.state = .closed) := by
  cases hstate : s.state with
  | pending => exact (h hstate).elim
  | closed => exact .inr (by simp [read, hstate])
  | reading d =>
    rcases read_of_reading hstate store with ⟨n, ⟨r, d', -, hread⟩ | ⟨outcome, hnone, hread⟩⟩
    · rw [hread]
      exact .inl ⟨r, d', rfl, rfl⟩
    · rw [hread]
      exact .inr ⟨hnone, rfl⟩

/-- **A stream that returns no record is closed**, and one that returns a record is open. -/
theorem state_of_next (s : RecordStream) (store : σ) :
    (∃ r d, (s.next store).1 = some (.ok r) ∧ (s.next store).2.1.state = .reading d) ∨
      ((∀ r, (s.next store).1 ≠ some (.ok r)) ∧ (s.next store).2.1.state = .closed) := by
  rcases next_of_open s store with ⟨e, hfailed, hnext⟩ | ⟨-, hnext⟩
  · rw [hnext]
    exact .inr ⟨by simp, (state_of_open s store).resolve_left (by simp [hfailed])⟩
  · rw [hnext]
    exact state_of_read (s.state_open store).1 _

/-- A stream is closed when it has been closed before, and when one of the calls for a record has
returned none. -/
theorem isClosed_serve (hfloor : s.Floored) (cs : List Call) (store : σ) :
    (serve cs s store).2.1.isClosed = true ↔
      s.isClosed = true ∨ .close ∈ cs ∨ ∃ o ∈ (serve cs s store).1, ∀ r, o ≠ some (.ok r) := by
  induction cs generalizing s store with
  | nil => simp [serve]
  | cons c cs ih =>
    have hstays : ∀ {s' : RecordStream} (store' : σ), s'.Floored → s'.state = .closed →
        (serve cs s' store').2.1.isClosed = true := by
      intro s' store' hfloor' hclosed
      rw [serve_of_closed hclosed hfloor', isClosed_iff]
      exact hclosed
    cases c with
    | close =>
      have hclosed := hstays (s.close store).2 (floored_close s store) rfl
      simp [serve, hclosed]
    | next =>
      have hrest := ih (floored_next hfloor store) (s.next store).2.2
      simp only [serve]
      rcases state_of_next s store with ⟨r, d, hr, hstate⟩ | ⟨hnone, hstate⟩
      · have hopen : s.isClosed ≠ true := by
          rw [Ne, isClosed_iff]
          intro hclosed
          rw [next_of_closed hclosed] at hr
          simp at hr
        have hopen' : (s.next store).2.1.isClosed ≠ true := by
          rw [Ne, isClosed_iff, hstate]
          simp
        simp [hrest, hopen, hopen', hr]
      · have hclosed := hstays (s.next store).2.2 (floored_next hfloor store) hstate
        simp only [hclosed, true_iff]
        exact .inr (.inr ⟨_, List.mem_cons_self, hnone⟩)

end Closed

section Account

variable {σ : Type} [ObjectStore σ] {x : RecordStream} {s : Audited σ}

/-- What the store has been asked, and the release that the stream still owes it. -/
def account (x : RecordStream) (s : Audited σ) : List Access :=
  s.accesses ++ x.loan?.toList.map fun _ => .released

/-- What becomes of an object that is asked for: it is refused, or handed out and given back. -/
def fate (store : σ) (bucket key : String) : List Access :=
  match (ObjectStore.fetch store bucket key).1 with
  | .ok _ => [.handed key, .released]
  | .error _ => [.refused key]

omit [ObjectStore σ] in
theorem account_of_settled (h : x.loan? = none) (s : Audited σ) : x.account s = s.accesses := by
  simp [account, h]

/-- A stream that gives its body back pays what it owes. -/
theorem accesses_giveBack (x : RecordStream) (s : Audited σ) :
    (giveBack x.state s).accesses = x.account s := by
  unfold account
  cases hstate : x.state with
  | pending => simp [giveBack, loan_of_pending hstate]
  | closed => simp [giveBack, loan_of_closed hstate]
  | reading d =>
    rw [loan_of_reading hstate]
    simp only [giveBack]
    cases d.holdsBody with
    | true => exact Audited.accesses_release s
    | false => exact (List.append_nil _).symm

theorem account_close (x : RecordStream) (s : Audited σ) :
    (x.close s).1.account (x.close s).2 = x.account s := by
  rw [account_of_settled (loan_of_closed rfl)]
  exact accesses_giveBack x s

theorem account_read (x : RecordStream) (s : Audited σ) :
    (x.read s).2.1.account (x.read s).2.2 = x.account s := by
  cases hstate : x.state with
  | pending | closed => simp only [read, hstate]
  | reading d =>
    rcases read_of_reading hstate s with ⟨n, ⟨r, d', hpull, hread⟩ | ⟨outcome, -, hread⟩⟩
    · rw [hread]
      have hholds := Decoder.holdsBody_pull hpull
      simp only [account, loan?, hstate, hholds]
    · rw [hread]
      exact account_close _ s

/-- **The object is asked for when the stream is opened.** A body that is handed out is given back
at once or owed. -/
theorem account_open (h : x.state = .pending) (s : Audited σ) :
    (x.open s).2.1.account (x.open s).2.2 =
      s.accesses ++ fate s.store x.bucket x.objectKey := by
  have hfetch : ObjectStore.fetch s x.bucket x.objectKey = s.fetch x.bucket x.objectKey := rfl
  unfold RecordStream.open fate
  rw [h, hfetch]
  unfold Audited.fetch
  generalize ObjectStore.fetch s.store x.bucket x.objectKey = out
  obtain ⟨answer, store⟩ := out
  cases answer with
  | error e => exact account_of_settled rfl _
  | ok body =>
    have hpaid : (ObjectStore.release (s.note (.handed x.objectKey) store)).accesses =
        s.accesses ++ [.handed x.objectKey, .released] := by
      rw [Audited.accesses_release, Audited.note, List.append_assoc]
      rfl
    simp only
    split
    · rw [account_of_settled rfl]
      exact hpaid
    · rename_i d _
      cases hholds : d.holdsBody with
      | true => simp [account, loan?, hholds, Audited.note]
      | false =>
        rw [account_of_settled (by simp [loan?, hholds])]
        exact hpaid

theorem account_next_of_pending (h : x.state = .pending) (s : Audited σ) :
    (x.next s).2.1.account (x.next s).2.2 =
      s.accesses ++ fate s.store x.bucket x.objectKey := by
  rw [← account_open h s]
  rcases next_of_open x s with ⟨e, -, hnext⟩ | ⟨-, hnext⟩
  · rw [hnext]
  · rw [hnext]
    exact account_read _ _

/-- Reading on from an opened object leaves the account as it is. -/
theorem account_next_of_opened (h : x.state ≠ .pending) (s : Audited σ) :
    (x.next s).2.1.account (x.next s).2.2 = x.account s := by
  rw [next_of_opened h]
  exact account_read x s

/-- **Calls on an opened stream leave the account as it is.** -/
theorem account_serve_of_opened (h : x.state ≠ .pending) (cs : List Call) (s : Audited σ) :
    (serve cs x s).2.1.account (serve cs x s).2.2 = x.account s := by
  induction cs generalizing x s with
  | nil => rfl
  | cons c cs ih =>
    cases c with
    | next => exact (ih (x.state_next s).1 _).trans (account_next_of_opened h s)
    | close => exact (ih (by simp [close]) _).trans (account_close x s)

/-- Calls on a new stream ask for the object if the first of them is for a record. -/
theorem account_serve_of_pending (h : x.state = .pending) (cs : List Call) (s : Audited σ) :
    (serve cs x s).2.1.account (serve cs x s).2.2 =
      s.accesses ++ if cs.head? = some .next then fate s.store x.bucket x.objectKey else [] := by
  have hfresh : x.account s = s.accesses := account_of_settled (loan_of_pending h) s
  cases cs with
  | nil => simpa [serve] using hfresh
  | cons c cs =>
    cases c with
    | next =>
      refine (account_serve_of_opened (x.state_next s).1 cs _).trans ?_
      rw [account_next_of_pending h]
      rfl
    | close =>
      refine (account_serve_of_opened (by simp [close]) cs _).trans ?_
      rw [account_close, hfresh]
      exact (List.append_nil _).symm

end Account

variable {σ : Type} [ObjectStore σ]

/-- **A stream opens its object once and releases it once**, whatever it is asked for and whatever
the store answers. It asks for the object if its first call is for a record. When it is closed or
given up, the store has refused the object, or has handed it out and taken it back. It is closed by
request, by an error and by its end, and from then on returns nothing and changes nothing. -/
theorem released_once (settings : DecoderSettings) (bucket objectKey : String) (o : Offset)
    (store : σ) (cs : List Call) :
    let s := start settings bucket objectKey o
    let run := serve cs s (Audited.mk store [])
    let spent := if cs.head? = some .next then fate store bucket objectKey else []
    serve cs s store = (run.1, run.2.1, run.2.2.store) ∧
      (run.2.1.drop run.2.2).accesses = spent ∧
      (run.2.1.intoOffset run.2.2).2.accesses = spent ∧
      run.2.1.account run.2.2 = spent ∧
      (run.2.1.isClosed = true ↔
        .close ∈ cs ∨ ∃ outcome ∈ run.1, ∀ r, outcome ≠ some (.ok r)) ∧
      (run.2.1.isClosed = true → run.2.2.accesses = spent ∧
        ∀ more, serve more run.2.1 run.2.2 =
          (List.replicate (more.count .next) none, run.2.1, run.2.2)) := by
  intro s run spent
  have hfloor : s.Floored := Nat.le_refl _
  have haccount : run.2.1.account run.2.2 = spent := account_serve_of_pending rfl cs _
  have hdrop : (run.2.1.drop run.2.2).accesses = spent :=
    (accesses_giveBack run.2.1 run.2.2).trans haccount
  have hview := serve_view Audited.objectView cs s ⟨store, []⟩
  refine ⟨hview, hdrop, hdrop, haccount, ?_, fun hclosed => ?_⟩
  · have hfresh : ¬ s.isClosed = true := by simp [isClosed, s, start]
    rw [isClosed_serve hfloor]
    exact or_iff_right hfresh
  · have hstate := isClosed_iff.1 hclosed
    refine ⟨?_, fun more => serve_of_closed hstate (floored_serve hfloor cs _) more _⟩
    rw [← haccount, account_of_settled (loan_of_closed hstate)]

/-- A stream that is given up after its first record gives the body back. -/
example :
    let s := start (.bytes 2) "store" "c" { key := ⟨"store", "t", none, "c"⟩ }
    let run := serve [.next] s (Audited.mk sampleStore [])
    run.2.2.accesses = [.handed "c"] ∧
      (run.2.1.drop run.2.2).accesses = [.handed "c", .released] := by
  cbv

end ObjectFeed.RecordStream
