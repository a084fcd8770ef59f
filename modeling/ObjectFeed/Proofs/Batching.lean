import Mathlib.Data.List.ReduceOption
import ObjectFeed.Proofs.Frame
import ObjectFeed.Proofs.WholeRun

/-!
# Batches

A feed that is polled does what a copy of it does that is called record by record: a batch is what
some calls in a row return, and an error after some records is held back for the next poll.

* `Feed.polls`, `Feed.returned`: polls in a row, and what a poll returns.
* `Feed.Batched`: the outcomes of calls that make up a batch.
* `Feed.collect_batched`: a batch is collected by such calls.
* `Feed.polls_lossless`: **polls return the outcomes of calls, each once and in order.**
-/

namespace ObjectFeed.Feed

variable {σ τ : Type} [ObjectStore σ] [OffsetStore τ]

/-- Calls for the next record in a row. -/
def pulls (limit : Nat) : (n : Nat) → Feed → World σ τ →
    List (Option (Except Error Delivery)) × Feed × World σ τ :=
  calls fun f w => f.pull limit false w

@[simp] theorem pulls_zero (limit : Nat) (f : Feed) (w : World σ τ) :
    pulls limit 0 f w = ([], f, w) := rfl

theorem pulls_succ (limit n : Nat) (f : Feed) (w : World σ τ) :
    pulls limit (n + 1) f w =
      ((f.pull limit false w).1 ::
          (pulls limit n (f.pull limit false w).2.1 (f.pull limit false w).2.2).1,
        (pulls limit n (f.pull limit false w).2.1 (f.pull limit false w).2.2).2) := rfl

/-- Polls in a row, with bounds of their batches. -/
def polls (limit : Nat) : (bounds : List Nat) → Feed → World σ τ →
    List (Except Error (List Delivery)) × Feed × World σ τ
  | [], f, w => ([], f, w)
  | n :: ns, f, w =>
    match f.poll limit n w with
    | (r, f, w) =>
      match polls limit ns f w with
      | (rs, f, w) => (r :: rs, f, w)

/-- What a poll returns, one by one. -/
def returned : Except Error (List Delivery) → List (Except Error Delivery)
  | .ok batch => batch.map .ok
  | .error e => [.error e]

/-- The outcomes of the calls that go on with a batch of which there are some records: records up to
the bound, or fewer of them and then nothing or an error. The error is returned if there is no
record at all, and is held back otherwise. -/
inductive Batched (before : List Delivery) (n : Nat) :
    List (Option (Except Error Delivery)) → Except Error (List Delivery) → Option Error → Prop where
  | full {ds : List Delivery} (length : ds.length = n) :
      Batched before n (ds.map (some ∘ .ok)) (.ok (before ++ ds)) none
  | drained {ds : List Delivery} (length : ds.length < n) :
      Batched before n (ds.map (some ∘ .ok) ++ [none]) (.ok (before ++ ds)) none
  | failed {e : Error} (empty : before = []) (pos : 0 < n) :
      Batched before n [some (.error e)] (.error e) none
  | held {ds : List Delivery} {e : Error} (records : before ++ ds ≠ []) (length : ds.length < n) :
      Batched before n (ds.map (some ∘ .ok) ++ [some (.error e)]) (.ok (before ++ ds)) (some e)

section Batched

variable {before : List Delivery} {n : Nat} {pulled : List (Option (Except Error Delivery))}
variable {result : Except Error (List Delivery)} {held : Option Error}

/-- A record that goes on with a batch is the first of the outcomes. -/
theorem Batched.cons {d : Delivery} (h : Batched (before ++ [d]) n pulled result held) :
    Batched before (n + 1) (some (.ok d) :: pulled) result held := by
  cases h with
  | @full ds length =>
    rw [List.append_assoc]
    have length' : (d :: ds).length = n + 1 := by rw [List.length_cons, length]
    exact .full length'
  | @drained ds length =>
    rw [List.append_assoc]
    have length' : (d :: ds).length < n + 1 := by rw [List.length_cons]; omega
    exact .drained length'
  | failed empty => simp at empty
  | @held ds e records length =>
    rw [List.append_assoc]
    have length' : (d :: ds).length < n + 1 := by rw [List.length_cons]; omega
    exact .held (by simp) length'

/-- Nothing of the outcomes is lost. -/
theorem Batched.returned_eq (h : Batched [] n pulled result held) :
    returned result ++ (held.map Except.error).toList = pulled.reduceOption := by
  have hrecords : ∀ ds : List Delivery,
      (ds.map (some ∘ (Except.ok : Delivery → Except Error Delivery))).reduceOption =
        ds.map .ok := by
    intro ds
    rw [← List.map_map, List.reduceOption, List.filterMap_map]
    simp
  cases h with
  | full => simp [returned, hrecords]
  | drained => simp [returned, List.reduceOption_append, hrecords]
  | failed => simp [returned]
  | held => simp [returned, List.reduceOption_append, hrecords]

/-- A batch is not longer than its bound, and empty only if the first outcome was nothing. -/
theorem Batched.length_le (h : Batched [] n pulled result held) (hn : 0 < n)
    {batch : List Delivery} (hb : result = .ok batch) :
    batch.length ≤ n ∧ (batch = [] → pulled.head? = some none) := by
  cases h with
  | full length =>
    cases hb
    refine ⟨by simp [length], fun hnil => ?_⟩
    simp only [List.nil_append] at hnil
    simp [hnil] at length
    omega
  | drained length =>
    cases hb
    refine ⟨by simp; omega, fun hnil => ?_⟩
    simp only [List.nil_append] at hnil
    simp [hnil]
  | failed => cases hb
  | held records length =>
    cases hb
    exact ⟨by simp; omega, fun hnil => absurd hnil records⟩

end Batched

variable {f : Feed} {w : World σ τ}

theorem pulls_add {limit m k : Nat} {f f' f'' : Feed} {w w' w'' : World σ τ}
    {rs rs' : List (Option (Except Error Delivery))} (h : pulls limit m f w = (rs, f', w'))
    (h' : pulls limit k f' w' = (rs', f'', w'')) :
    pulls limit (m + k) f w = (rs ++ rs', f'', w'') := by
  induction m generalizing f w rs with
  | zero =>
    obtain ⟨rfl, rfl, rfl⟩ : [] = rs ∧ f = f' ∧ w = w' := by simpa using h
    rw [Nat.zero_add, h', List.nil_append]
  | succ m ih =>
    rw [pulls_succ] at h
    obtain ⟨rfl, hrest⟩ := Prod.mk.inj h
    rw [Nat.succ_add, pulls_succ, ih (Prod.ext rfl hrest)]
    rfl

theorem deferred_pulls {limit m : Nat} {f f' : Feed} {w w' : World σ τ}
    {rs : List (Option (Except Error Delivery))} (h : pulls limit m f w = (rs, f', w')) :
    f'.deferred = f.deferred := by
  induction m generalizing f w rs with
  | zero =>
    obtain ⟨-, rfl, -⟩ : [] = rs ∧ f = f' ∧ w = w' := by simpa using h
    rfl
  | succ m ih =>
    rw [pulls_succ] at h
    obtain ⟨-, hrest⟩ := Prod.mk.inj h
    exact (ih (Prod.ext rfl hrest)).trans (deferred_pull limit false f w)

theorem release_held (hf : f.deferred = none) : { f with deferred := none } = f := by
  rw [← hf]

/-- **A batch is collected by calls in a row**, of which only the last one may return something
other than a record. -/
theorem collect_batched (limit n : Nat) (before : List Delivery) (hf : f.deferred = none)
    (w : World σ τ) :
    ∃ k pulled g w' result held, pulls limit k f w = (pulled, g, w') ∧
      collect limit n before f w = (result, { g with deferred := held }, w') ∧
      Batched before n pulled result held := by
  induction n generalizing before f w with
  | zero =>
    refine ⟨0, [], f, w, .ok before, none, rfl, ?_, ?_⟩
    · rw [collect, release_held hf]
    · have hfull : Batched before 0 [] (.ok (before ++ [])) none :=
        .full (List.length_nil : [].length = 0)
      rwa [List.append_nil] at hfull
  | succ n ih =>
    have hdeferred := deferred_pull limit false f w
    have hpulls := fun k => pulls_succ limit k f w
    unfold collect
    generalize f.pull limit false w = out at hdeferred hpulls ⊢
    obtain ⟨r, f', w'⟩ := out
    rw [hf] at hdeferred
    have hkept := release_held hdeferred
    have hnew : ([] : List Delivery).length < n + 1 := Nat.succ_pos n
    match r with
    | some (.ok d) =>
      obtain ⟨k, pulled, g, w'', result, held, hrest, hcollect, hbatched⟩ :=
        ih (before ++ [d]) hdeferred w'
      refine ⟨k + 1, _, g, w'', result, held, ?_, hcollect, hbatched.cons⟩
      rw [hpulls, hrest]
    | some (.error e) =>
      simp only
      split
      · rename_i hempty
        refine ⟨1, _, f', w', .error e, none, hpulls 0, by rw [hkept], ?_⟩
        exact .failed (List.isEmpty_iff.1 hempty) (Nat.succ_pos n)
      · rename_i hempty
        refine ⟨1, _, f', w', .ok before, some e, hpulls 0, rfl, ?_⟩
        have hheld : Batched before (n + 1) [some (.error e)] (.ok (before ++ [])) (some e) :=
          .held (by simpa using hempty) hnew
        rwa [List.append_nil] at hheld
    | none =>
      refine ⟨1, _, f', w', .ok before, none, hpulls 0, by rw [hkept], ?_⟩
      have hdrained : Batched before (n + 1) [none] (.ok (before ++ [])) none :=
        .drained hnew
      rwa [List.append_nil] at hdrained

/-- A poll makes the calls of a batch, if no error is held back. -/
theorem poll_batched (limit n : Nat) (hf : f.deferred = none) (w : World σ τ) :
    ∃ k pulled g w' result held, pulls limit k f w = (pulled, g, w') ∧
      poll limit n f w = (result, { g with deferred := held }, w') ∧
      Batched [] n pulled result held := by
  simp only [poll, hf]
  exact collect_batched limit n [] hf w

/-- A poll of a feed that holds an error back returns it and pulls nothing. -/
theorem poll_of_held (limit n : Nat) (e : Error) (hf : f.deferred = none) (w : World σ τ) :
    poll limit n { f with deferred := some e } w = (.error e, f, w) := by
  simp only [poll, release_held hf]

/-- Polls of a feed that may hold an error back return it, and then the outcomes of calls. -/
theorem polls_pulls (limit : Nat) (bounds : List Nat) (held : Option Error)
    (hf : f.deferred = none) (w : World σ τ) :
    ∃ m outcomes g w' results held', pulls limit m f w = (outcomes, g, w') ∧
      polls limit bounds { f with deferred := held } w =
        (results, { g with deferred := held' }, w') ∧
      results.flatMap returned ++ (held'.map Except.error).toList =
        (held.map Except.error).toList ++ outcomes.reduceOption := by
  induction bounds generalizing f w held with
  | nil => exact ⟨0, [], f, w, [], held, rfl, rfl, by simp⟩
  | cons n bounds ih =>
    unfold polls
    cases held with
    | some e =>
      -- the error that was held back is all that this poll returns
      obtain ⟨m, outcomes, g, w', results, held', hpulls, hpolls, hreturned⟩ := ih none hf w
      rw [release_held hf] at hpolls
      rw [poll_of_held limit n e hf]
      refine ⟨m, outcomes, g, w', .error e :: results, held', hpulls, by simp only [hpolls], ?_⟩
      rw [List.flatMap_cons, List.append_assoc, hreturned]
      rfl
    | none =>
      obtain ⟨k, pulled, f', w', result, held, hpulls, hpoll, hbatched⟩ :=
        poll_batched limit n hf w
      obtain ⟨m, outcomes, g, w'', results, held', hpulls', hpolls, hreturned⟩ :=
        ih held ((deferred_pulls hpulls).trans hf) w'
      rw [release_held hf, hpoll]
      refine ⟨k + m, pulled ++ outcomes, g, w'', result :: results, held',
        pulls_add hpulls hpulls', by simp only [hpolls], ?_⟩
      rw [List.flatMap_cons, List.append_assoc, hreturned, ← List.append_assoc,
        hbatched.returned_eq, List.reduceOption_append]
      rfl

/-- **Polls return the outcomes of calls**, each once and in order, if nothing was held back before:
there is a number of calls that return all that the polls have returned, and last the error that is
held back now, and that lead to the same state. If an error is held back, the next poll returns it
and pulls nothing. Otherwise it makes some calls, stops at its bound or at the first one that does
not return a record, and returns an empty batch only if the first one returned nothing. -/
theorem polls_lossless (limit : Nat) (hf : f.deferred = none) (bounds : List Nat) {n : Nat}
    (hn : 0 < n) (w : World σ τ) :
    ∃ m outcomes g w' results held,
      pulls limit m f w = (outcomes, g, w') ∧
      polls limit bounds f w = (results, { g with deferred := held }, w') ∧
      results.flatMap returned ++ (held.map Except.error).toList = outcomes.reduceOption ∧
      (∀ e, held = some e → poll limit n { g with deferred := held } w' = (.error e, g, w')) ∧
      (held = none → ∃ k pulled g' w'' result held',
        pulls limit k g w' = (pulled, g', w'') ∧
        poll limit n { g with deferred := held } w' =
          (result, { g' with deferred := held' }, w'') ∧
        Batched [] n pulled result held' ∧
        ∀ batch, result = .ok batch →
          batch.length ≤ n ∧ (batch = [] → pulled.head? = some none)) := by
  obtain ⟨m, outcomes, g, w', results, held, hpulls, hpolls, hreturned⟩ :=
    polls_pulls limit bounds none hf w
  rw [release_held hf] at hpolls
  have hg := (deferred_pulls hpulls).trans hf
  refine ⟨m, outcomes, g, w', results, held, hpulls, hpolls, hreturned, ?_, ?_⟩
  · rintro e rfl
    exact poll_of_held limit n e hg w'
  · rintro rfl
    obtain ⟨k, pulled, g', w'', result, held', hpulls', hpoll, hbatched⟩ :=
      poll_batched limit n hg w'
    rw [release_held hg]
    exact ⟨k, pulled, g', w'', result, held', hpulls', hpoll, hbatched,
      fun batch hb => hbatched.length_le hn hb⟩

/-- The failure of the third object is held back after the record before it. -/
theorem polls_lossless_sample :
    let f := { sampleFeed with tolerance := .none }
    f.deferred = none ∧ 0 < 2 ∧ ∃ m outcomes g w' results held,
      pulls 64 m f sampleWorld = (outcomes, g, w') ∧
      polls 64 [3, 2] f sampleWorld = (results, { g with deferred := held }, w') ∧
      results.flatMap returned ++ (held.map Except.error).toList = outcomes.reduceOption ∧
      held.isSome = true ∧
      ∀ e, held = some e → poll 64 2 { g with deferred := held } w' = (.error e, g, w') := by
  obtain ⟨m, outcomes, g, w', results, held, hpulls, hpolls, hreturned, herror, -⟩ :=
    polls_lossless (f := { sampleFeed with tolerance := .none }) 64 rfl [3, 2] (n := 2)
      (by decide) sampleWorld
  have hheld : (polls 64 [3, 2] { sampleFeed with tolerance := .none } sampleWorld
      ).2.1.deferred.isSome = true := by cbv
  refine ⟨rfl, by decide, m, outcomes, g, w', results, held, hpulls, hpolls, hreturned, ?_, herror⟩
  rw [hpolls] at hheld
  exact hheld

end ObjectFeed.Feed
