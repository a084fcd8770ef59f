import ObjectFeed.Proofs.Frame
import ObjectFeed.Proofs.Views

/-!
# Acts and moments

A feed is asked for records one by one or in batches, and is closed, in any order. All that it does
it does in turns, and a moment is a state in which a turn begins. Over stores that may answer
anything, what is true of a feed at any time is shown turn by turn.

* `Feed.Act`, `Feed.act`, `Feed.acts`: what is asked of a feed, and its answers.
* `Feed.Moment`, `Feed.moments`: the states in which the turns of acts begin.
* `Feed.Path`: the moments from one state to another.
* `Feed.acts_path`: **acts are a path through their moments.**
* `Feed.Path.keeps`: what turns and releases keep, a path keeps, and all its moments have it.
* `Feed.Path.split`: a path leads to each of its moments, and on from there.
-/

namespace ObjectFeed.Feed

/-- What is asked of a feed: the next record, a batch of records, or a release. -/
inductive Act where
  | next
  | poll (n : Nat)
  | pollBatch
  | close
deriving DecidableEq

/-- What an act returns. -/
inductive Answer where
  | pulled (r : Option (Except Error Delivery))
  | polled (r : Except Error (List Delivery))
  | closed

/-- The error that an act returns. -/
def Answer.error? : Answer → Option Error
  | .pulled (some (.error e)) => some e
  | .polled (.error e) => some e
  | _ => none

/-- A state in which a turn begins. -/
structure Moment (σ τ : Type) where
  /-- The pull has begun a listing since it last took up an object. -/
  listed : Bool
  feed : Feed
  world : World σ τ

variable {σ τ : Type}

/-- The feed that a turn leads to. -/
def Turn.feed : Turn σ τ → Feed
  | .outcome _ f _ => f
  | .again _ f _ => f

/-- The world that a turn leads to. -/
def Turn.world : Turn σ τ → World σ τ
  | .outcome _ _ w => w
  | .again _ _ w => w

theorem Turn.keeps_iff {I : Feed → World σ τ → Prop} {t : Turn σ τ} :
    t.Keeps I ↔ I t.feed t.world := by
  cases t <;> exact Iff.rfl

variable [ObjectStore σ] [OffsetStore τ]

theorem setup_turn (f : Feed) (listed : Bool) (w : World σ τ) :
    (f.turn listed w).feed.setup = f.setup :=
  (Turn.keeps_iff.1 (alike_turn ⟨rfl, rfl⟩ listed w)).1

omit [OffsetStore τ] in
/-- A release changes what is being read and what is to be read next, and nothing else. -/
theorem close_cases (f : Feed) (w : World σ τ) :
    (f.current = none ∧ f.close w = (f, w)) ∨ ∃ x, f.current = some x ∧
      f.close w = ({ f with current := none, pending := some x.summary },
        { w with
          objects := RecordStream.giveBack x.stream.state w.objects
          cache := w.cache.update (x.stream.offset.raiseTo x.stream.resumeFrom) }) := by
  unfold close
  cases f.current with
  | none => exact .inl ⟨rfl, rfl⟩
  | some x => exact .inr ⟨x, rfl, rfl⟩

omit [OffsetStore τ] in
theorem setup_close (f : Feed) (w : World σ τ) : (f.close w).1.setup = f.setup := by
  rcases close_cases f w with ⟨-, hclose⟩ | ⟨x, -, hclose⟩
  · rw [hclose]
  · rw [hclose]
    rfl

/-- A moment's turn. -/
def Moment.turn (m : Moment σ τ) : Turn σ τ := m.feed.turn m.listed m.world

section Acts

variable (limit : Feed → World σ τ → Nat)

/-- Does what is asked; `limit` bounds the turns of a pull. -/
def act : Act → Feed → World σ τ → Answer × Feed × World σ τ
  | .next, f, w =>
    match f.pull (limit f w) false w with
    | (r, f, w) => (.pulled r, f, w)
  | .poll n, f, w =>
    match f.poll (limit f w) n w with
    | (r, f, w) => (.polled r, f, w)
  | .pollBatch, f, w =>
    match f.poll (limit f w) f.maxPollRecords w with
    | (r, f, w) => (.polled r, f, w)
  | .close, f, w => (.closed, f.close w)

/-- Acts in a row. -/
def acts : List Act → Feed → World σ τ → List Answer × Feed × World σ τ
  | [], f, w => ([], f, w)
  | a :: as, f, w =>
    match act limit a f w with
    | (r, f, w) =>
      match acts as f w with
      | (rs, f, w) => (r :: rs, f, w)

section View

variable {σ' τ' : Type} [ObjectStore σ'] [OffsetStore τ'] {φ : σ → σ'} {ψ : τ → τ'}
variable (hφ : ObjectView φ) (hψ : OffsetView ψ) (limit : Feed → World σ' τ' → Nat)

include hφ hψ

theorem act_view (a : Act) (f : Feed) (w : World σ τ) :
    act limit a f (w.view φ ψ) =
      ((act (fun f w => limit f (w.view φ ψ)) a f w).1,
        (act (fun f w => limit f (w.view φ ψ)) a f w).2.1,
        (act (fun f w => limit f (w.view φ ψ)) a f w).2.2.view φ ψ) := by
  cases a with
  | next => simp only [act, pull_view hφ hψ]
  | poll n => simp only [act, poll_view hφ hψ]
  | pollBatch => simp only [act, poll_view hφ hψ]
  | close => simp only [act, close_view hφ]

end View

end Acts

/-- The moments of a pull. -/
def pullMoments : (limit : Nat) → (listed : Bool) → Feed → World σ τ → List (Moment σ τ)
  | 0, _, _, _ => []
  | limit + 1, listed, f, w =>
    ⟨listed, f, w⟩ ::
      match f.turn listed w with
      | .outcome .. => []
      | .again listed f w => pullMoments limit listed f w

/-- The moments of the pulls that go on with a batch. -/
def collectMoments (limit : Nat) : (n : Nat) → Feed → World σ τ → List (Moment σ τ)
  | 0, _, _ => []
  | n + 1, f, w =>
    pullMoments limit false f w ++
      match f.pull limit false w with
      | (some (.ok _), f, w) => collectMoments limit n f w
      | _ => []

/-- The moments of a poll; an error that is held back is returned at once. -/
def pollMoments (limit n : Nat) (f : Feed) (w : World σ τ) : List (Moment σ τ) :=
  match f.deferred with
  | some _ => []
  | none => collectMoments limit n f w

section Acts

variable (limit : Feed → World σ τ → Nat)

/-- The moments of an act. -/
def actMoments : Act → Feed → World σ τ → List (Moment σ τ)
  | .next, f, w => pullMoments (limit f w) false f w
  | .poll n, f, w => pollMoments (limit f w) n f w
  | .pollBatch, f, w => pollMoments (limit f w) f.maxPollRecords f w
  | .close, _, _ => []

/-- The moments of acts in a row. -/
def moments : List Act → Feed → World σ τ → List (Moment σ τ)
  | [], _, _ => []
  | a :: as, f, w =>
    actMoments limit a f w ++
      match act limit a f w with
      | (_, f, w) => moments as f w

end Acts

/-- The moments from one state to another. In between an error may come to be held back or be
returned, and what is being read may be released. -/
inductive Path : Feed → World σ τ → List (Moment σ τ) → Feed → World σ τ → Prop where
  | nil {f : Feed} {w : World σ τ} : Path f w [] f w
  | turn {f f' : Feed} {w w' : World σ τ} {ms : List (Moment σ τ)} {listed : Bool}
      (rest : Path (f.turn listed w).feed (f.turn listed w).world ms f' w') :
      Path f w (⟨listed, f, w⟩ :: ms) f' w'
  | held {f f' : Feed} {w w' : World σ τ} {ms : List (Moment σ τ)} {deferred : Option Error}
      (rest : Path { f with deferred } w ms f' w') : Path f w ms f' w'
  | close {f f' : Feed} {w w' : World σ τ} {ms : List (Moment σ τ)}
      (rest : Path (f.close w).1 (f.close w).2 ms f' w') : Path f w ms f' w'

namespace Path

variable {f f' f'' : Feed} {w w' w'' : World σ τ} {ms ms' : List (Moment σ τ)}

theorem append (h : Path f w ms f' w') (h' : Path f' w' ms' f'' w'') :
    Path f w (ms ++ ms') f'' w'' := by
  induction h with
  | nil => exact h'
  | turn _ ih => exact .turn (ih h')
  | held _ ih => exact .held (ih h')
  | close _ ih => exact .close (ih h')

/-- **What turns and releases keep, a path keeps**, and all its moments have it. -/
theorem keeps {I : Feed → World σ τ → Prop}
    (hturn : ∀ f listed w, I f w → (f.turn listed w).Keeps I)
    (hheld : ∀ f w deferred, I f w → I { f with deferred } w)
    (hclose : ∀ f w, I f w → I (f.close w).1 (f.close w).2)
    (hpath : Path f w ms f' w') (h : I f w) :
    I f' w' ∧ ∀ m ∈ ms, I m.feed m.world := by
  induction hpath with
  | nil => exact ⟨h, by simp⟩
  | turn _ ih =>
    obtain ⟨hend, hmoments⟩ := ih (Turn.keeps_iff.1 (hturn _ _ _ h))
    exact ⟨hend, List.forall_mem_cons.2 ⟨h, hmoments⟩⟩
  | held _ ih => exact ih (hheld _ _ _ h)
  | close _ ih => exact ih (hclose _ _ h)

/-- What is true of a state with the moments up to it stays true along a path, if turns add
themselves to the moments. -/
theorem grows {I : List (Moment σ τ) → Feed → World σ τ → Prop}
    (hturn : ∀ ms f listed w, I ms f w →
      (f.turn listed w).Keeps (I (ms ++ [⟨listed, f, w⟩])))
    (hheld : ∀ ms f w deferred, I ms f w → I ms { f with deferred } w)
    (hclose : ∀ ms f w, I ms f w → I ms (f.close w).1 (f.close w).2)
    (hpath : Path f w ms' f' w') (h : I ms f w) : I (ms ++ ms') f' w' := by
  induction hpath generalizing ms with
  | nil => rwa [List.append_nil]
  | turn _ ih =>
    rw [List.append_cons]
    exact ih (Turn.keeps_iff.1 (hturn _ _ _ _ h))
  | held _ ih => exact ih (hheld _ _ _ _ h)
  | close _ ih => exact ih (hclose _ _ _ h)

/-- The path up to a moment and the path from it on. -/
theorem split {m : Moment σ τ} {before after : List (Moment σ τ)}
    (h : Path f w (before ++ m :: after) f' w') :
    Path f w before m.feed m.world ∧ Path m.feed m.world (m :: after) f' w' := by
  generalize hms : before ++ m :: after = ms at h
  induction h generalizing before with
  | nil => simp at hms
  | turn rest ih =>
    rcases before with _ | ⟨m', before⟩
    · obtain ⟨rfl, rfl⟩ := List.cons.inj hms
      exact ⟨.nil, .turn rest⟩
    · obtain ⟨rfl, hrest⟩ := List.cons.inj hms
      obtain ⟨hbefore, hafter⟩ := ih hrest
      exact ⟨.turn hbefore, hafter⟩
  | held _ ih =>
    obtain ⟨hbefore, hafter⟩ := ih hms
    exact ⟨.held hbefore, hafter⟩
  | close _ ih =>
    obtain ⟨hbefore, hafter⟩ := ih hms
    exact ⟨.close hbefore, hafter⟩

/-- A path changes no settings, and neither do its moments. -/
theorem setup_eq (h : Path f w ms f' w') :
    f'.setup = f.setup ∧ ∀ m ∈ ms, m.feed.setup = f.setup :=
  h.keeps (I := fun g _ => g.setup = f.setup)
    (fun g listed w hg => Turn.keeps_iff.2 ((setup_turn g listed w).trans hg))
    (fun _ _ _ hg => hg) (fun g w hg => (setup_close g w).trans hg) rfl

end Path

theorem pull_path (limit : Nat) (listed : Bool) (f : Feed) (w : World σ τ) :
    Path f w (pullMoments limit listed f w) (f.pull limit listed w).2.1
      (f.pull limit listed w).2.2 := by
  induction limit generalizing listed f w with
  | zero => exact .nil
  | succ limit ih =>
    refine .turn ?_
    unfold pull
    generalize f.turn listed w = t
    cases t with
    | outcome r f w => exact .nil
    | again listed f w => exact ih listed f w

theorem collect_path (limit n : Nat) (batch : List Delivery) (f : Feed) (w : World σ τ) :
    Path f w (collectMoments limit n f w) (f.collect limit n batch w).2.1
      (f.collect limit n batch w).2.2 := by
  induction n generalizing batch f w with
  | zero => exact .nil
  | succ n ih =>
    have hpull := pull_path limit false f w
    unfold collectMoments collect
    generalize f.pull limit false w = out at hpull
    obtain ⟨r, f', w'⟩ := out
    refine hpull.append ?_
    rcases r with _ | e | d
    · exact .nil
    · simp only
      split
      · exact .nil
      · exact .held .nil
    · exact ih _ f' w'

theorem poll_path (limit n : Nat) (f : Feed) (w : World σ τ) :
    Path f w (pollMoments limit n f w) (f.poll limit n w).2.1 (f.poll limit n w).2.2 := by
  unfold pollMoments poll
  cases f.deferred with
  | some e => exact .held .nil
  | none => exact collect_path limit n [] f w

section Acts

variable (limit : Feed → World σ τ → Nat)

theorem act_path (a : Act) (f : Feed) (w : World σ τ) :
    Path f w (actMoments limit a f w) (act limit a f w).2.1 (act limit a f w).2.2 := by
  cases a with
  | next => exact pull_path ..
  | poll n => exact poll_path ..
  | pollBatch => exact poll_path ..
  | close => exact .close .nil

/-- **Acts are a path through their moments.** -/
theorem acts_path (as : List Act) (f : Feed) (w : World σ τ) :
    Path f w (moments limit as f w) (acts limit as f w).2.1 (acts limit as f w).2.2 := by
  induction as generalizing f w with
  | nil => exact .nil
  | cons a as ih => exact (act_path limit a f w).append (ih _ _)

end Acts

end ObjectFeed.Feed
