import Mathlib.Data.List.ReduceOption
import ObjectFeed.Proofs.Recording
import ObjectFeed.Store.Memory

/-!
# The pagination protocol

What a listing asks of a store and what it delivers, whatever the store answers: pages of any
length, empty ones with a token, the same keys again, or failures.

* `Exchange.items`: what an exchange gives to deliver.
* `Lister.due`: the request that the exchanges so far call for.
* `Listing.Recounts`: what a listing in progress remembers of its exchanges; `Recounts.step` and
  `Recounts.next` keep it.
* `Lister.outcomes_paged`: **each request is the one that is due, and is sent only once all that was
  received has been delivered and more is asked for.**
-/

namespace ObjectFeed

/-- What is to be delivered of an exchange: the objects of the page, or the failure. -/
def Exchange.items (x : Exchange) : List (Except StoreError Summary) :=
  match x.answer with
  | .ok p => p.objects.map .ok
  | .error e => [.error e]

/-- The request that is due after some exchanges: at first the one with the key to start after, then
the one with the token of the page before. There is none after a page without a token, and none
after a failure. -/
def Lister.due (l : Lister) (startAfter : Option String) (exchanges : List Exchange) :
    Option ListRequest :=
  match exchanges.getLast? with
  | none =>
    some { bucket := l.bucket, keyPrefix := l.keyPrefix, maxKeys := l.pageSize, token := none,
           startAfter }
  | some x =>
    match x.answer with
    | .ok ⟨_, some token⟩ =>
      some { bucket := l.bucket, keyPrefix := l.keyPrefix, maxKeys := l.pageSize,
             token := some token, startAfter := none }
    | .ok ⟨_, none⟩ => none
    | .error _ => none

/-- A request that is due repeats what is listed, and has a token or a key to start after but not
both. -/
theorem Lister.request_of_due {l : Lister} {startAfter : Option String} {exchanges : List Exchange}
    {r : ListRequest} (h : l.due startAfter exchanges = some r) : r.bucket = l.bucket ∧
      r.keyPrefix = l.keyPrefix ∧ r.maxKeys = l.pageSize ∧
      (r.token = none ∨ r.startAfter = none) := by
  unfold due at h
  split at h
  · rw [← Option.some.inj h]
    exact ⟨rfl, rfl, rfl, .inl rfl⟩
  · split at h
    · rw [← Option.some.inj h]
      exact ⟨rfl, rfl, rfl, .inr rfl⟩
    · cases h
    · cases h

namespace Listing

variable {σ : Type} [ObjectStore σ]

/-- The outcomes of calls in a row. -/
def outcomes (limit : Nat) : (n : Nat) → Listing → σ →
    List (Option (Except StoreError Summary)) × Listing × σ
  | 0, l, store => ([], l, store)
  | n + 1, l, store =>
    match outcomes limit n l store with
    | (rs, l, store) =>
      match l.next limit store with
      | (r, l, store) => (rs ++ [r], l, store)

/-- Calls cannot tell that a store is recorded. -/
theorem outcomes_store (limit n : Nat) (l : Listing) (s : Recorded σ) :
    outcomes limit n l s.store =
      ((outcomes limit n l s).1, (outcomes limit n l s).2.1, (outcomes limit n l s).2.2.store) := by
  induction n with
  | zero => rfl
  | succ n ih =>
    unfold outcomes
    rw [ih]
    simp only [next_store]

/-- A listing that has made some exchanges and has delivered some items: each request was due, the
next one is, and what was received and not delivered is in the buffer. -/
structure Recounts (lister : Lister) (startAfter : Option String) (l : Listing)
    (exchanges : List Exchange) (yielded : List (Except StoreError Summary)) : Prop where
  requests : ∀ before x rest, exchanges = before ++ x :: rest →
    lister.due startAfter before = some x.request
  due : lister.due startAfter exchanges = if l.done then none else some l.request
  items : exchanges.flatMap Exchange.items = yielded ++ l.buffer.map .ok

variable {lister : Lister} {startAfter : Option String} {l : Listing}
variable {exchanges : List Exchange} {yielded : List (Except StoreError Summary)}

theorem recounts_start (lister : Lister) (startAfter : Option String) :
    Recounts lister startAfter (lister.start startAfter) [] [] where
  requests before x rest h := by simp at h
  due := rfl
  items := rfl

/-- A request that is due extends the exchanges. -/
theorem Recounts.requests_concat (h : Recounts lister startAfter l exchanges yielded)
    (hd : l.done = false) (answer : Except StoreError Page) :
    ∀ before x rest, exchanges ++ [⟨l.request, answer⟩] = before ++ x :: rest →
      lister.due startAfter before = some x.request := by
  intro before x rest heq
  rcases List.eq_nil_or_concat rest with rfl | ⟨rest, y, rfl⟩
  · obtain ⟨rfl, hx⟩ := List.append_inj' heq rfl
    rw [h.due, hd, ← List.head_eq_of_cons_eq hx]
    rfl
  · rw [List.concat_eq_append, ← List.cons_append, ← List.append_assoc] at heq
    exact h.requests before x rest (List.append_inj' heq rfl).1

/-- What one step can do: deliver the first object of the buffer, end when no request is due, or
send the request that is due when all that was received has been delivered. -/
theorem Recounts.step {s : Recorded σ} (h : Recounts lister startAfter l s.exchanges yielded) :
    (∃ x l', l.step s = (.item x, l', s) ∧
      Recounts lister startAfter l' s.exchanges (yielded ++ [.ok x])) ∨
    (l.step s = (.ended, l, s) ∧ lister.due startAfter s.exchanges = none ∧
      s.exchanges.flatMap Exchange.items = yielded) ∨
    (∃ x l' s', l.step s = (.fetched, l', s') ∧ s'.exchanges = s.exchanges ++ [x] ∧
      s.exchanges.flatMap Exchange.items = yielded ∧
      Recounts lister startAfter l' s'.exchanges yielded) ∨
    (∃ x e l' s', l.step s = (.failed e, l', s') ∧ s'.exchanges = s.exchanges ++ [x] ∧
      s.exchanges.flatMap Exchange.items = yielded ∧
      Recounts lister startAfter l' s'.exchanges (yielded ++ [.error e])) := by
  unfold Listing.step
  cases hb : l.buffer with
  | cons x buffer =>
    refine .inl ⟨x, _, rfl, h.requests, h.due, ?_⟩
    rw [h.items, hb]
    simp
  | nil =>
    right
    have hitems : s.exchanges.flatMap Exchange.items = yielded := by simp [h.items, hb]
    cases hd : l.done with
    | true =>
      refine .inl ⟨by simp, ?_, hitems⟩
      rw [h.due, if_pos hd]
    | false =>
      right
      rw [Recorded.list_eq]
      generalize ObjectStore.list s.store l.request = out
      obtain ⟨answer, store⟩ := out
      have hrequests := h.requests_concat hd answer
      have hdue : lister.due startAfter s.exchanges = some l.request := by simp [h.due, hd]
      obtain ⟨hbucket, hprefix, hkeys, -⟩ := Lister.request_of_due hdue
      cases answer with
      | ok p =>
        refine .inl ⟨_, l.accept p, ⟨store, s.exchanges ++ [⟨l.request, .ok p⟩]⟩, by simp, rfl,
          hitems, hrequests, ?_, ?_⟩
        · -- the next request repeats this one, with the token of the page
          obtain ⟨objects, next⟩ := p
          cases next with
          | none => simp [Lister.due, accept]
          | some token =>
            simp [Lister.due, accept, hd, hbucket, hprefix, hkeys]
        · simp [hitems, buffer_accept hb, Exchange.items]
      | error e =>
        refine .inr ⟨_, e, { l with buffer := [], done := true },
          ⟨store, s.exchanges ++ [⟨l.request, .error e⟩]⟩, by simp, rfl, hitems, hrequests,
          ?_, ?_⟩
        · simp [Lister.due]
        · simp [hitems, Exchange.items]

/-- **What one call does**: each request finds all that was received before it delivered, and a call
that delivers nothing was cut short or leaves nothing to deliver and no request that is due. -/
theorem Recounts.next (limit : Nat) {s : Recorded σ}
    (h : Recounts lister startAfter l s.exchanges yielded) :
    ∃ sent, (l.next limit s).2.2.exchanges = s.exchanges ++ sent ∧
      (∀ i < sent.length, (s.exchanges ++ sent.take i).flatMap Exchange.items = yielded) ∧
      Recounts lister startAfter (l.next limit s).2.1 (l.next limit s).2.2.exchanges
        (yielded ++ (l.next limit s).1.toList) ∧
      ((l.next limit s).1 = none → sent.length = limit ∨
        lister.due startAfter (s.exchanges ++ sent) = none ∧
          (s.exchanges ++ sent).flatMap Exchange.items = yielded) := by
  induction limit generalizing l s with
  | zero => exact ⟨[], by simp [Listing.next], by simp, by simpa [Listing.next] using h, by simp⟩
  | succ limit ih =>
    unfold Listing.next
    rcases h.step with ⟨x, l', hstep, h'⟩ | ⟨hstep, hdue, hitems⟩ |
      ⟨x, l', s', hstep, hsent, hitems, h'⟩ | ⟨x, e, l', s', hstep, hsent, hitems, h'⟩
    · rw [hstep]
      exact ⟨[], by simp, by simp, h', by simp⟩
    · rw [hstep]
      exact ⟨[], by simp, by simp, by simpa using h, fun _ => .inr (by simp [hdue, hitems])⟩
    · -- the requests of the rest of the call come after this one
      rw [hstep]
      obtain ⟨sent, hsent', hbefore, hnext, hnone⟩ := ih h'
      have happend : s'.exchanges ++ sent = s.exchanges ++ x :: sent := by simp [hsent]
      refine ⟨x :: sent, hsent'.trans happend, ?_, hnext, ?_⟩
      · intro i hi
        cases i with
        | zero => simpa using hitems
        | succ i =>
          rw [← hbefore i (by simpa using hi), hsent]
          simp
      · intro hr
        rw [← happend, List.length_cons]
        exact (hnone hr).imp (congrArg (· + 1)) id
    · rw [hstep]
      refine ⟨[x], hsent, ?_, h', by simp⟩
      intro i hi
      have : i = 0 := by simpa using hi
      simpa [this] using hitems

end Listing

namespace Lister

variable {σ : Type} [ObjectStore σ]
variable (lister : Lister) (startAfter : Option String) (limit n : Nat) (store : σ)

/-- A fresh listing after some calls. -/
def run : List (Option (Except StoreError Summary)) × Listing × Recorded σ :=
  Listing.outcomes limit n (lister.start startAfter) ⟨store, []⟩

/-- The exchanges of a fresh listing after some calls. -/
def exchanges : List Exchange := (lister.run startAfter limit n store).2.2.exchanges

/-- What some calls of a fresh listing deliver. -/
def yielded : List (Except StoreError Summary) :=
  (lister.run startAfter limit n store).1.reduceOption

theorem run_succ : lister.run startAfter limit (n + 1) store =
    ((lister.run startAfter limit n store).1 ++
        [((lister.run startAfter limit n store).2.1.next limit
          (lister.run startAfter limit n store).2.2).1],
      ((lister.run startAfter limit n store).2.1.next limit
        (lister.run startAfter limit n store).2.2).2) := rfl

theorem yielded_succ : lister.yielded startAfter limit (n + 1) store =
    lister.yielded startAfter limit n store ++
      ((lister.run startAfter limit n store).2.1.next limit
        (lister.run startAfter limit n store).2.2).1.toList := by
  unfold yielded
  rw [run_succ, List.reduceOption_append]
  cases ((lister.run startAfter limit n store).2.1.next limit
    (lister.run startAfter limit n store).2.2).1 <;> rfl

theorem recounts_run : Listing.Recounts lister startAfter (lister.run startAfter limit n store).2.1
    (lister.exchanges startAfter limit n store) (lister.yielded startAfter limit n store) := by
  induction n with
  | zero => exact Listing.recounts_start lister startAfter
  | succ n ih =>
    obtain ⟨sent, -, -, h, -⟩ := ih.next limit
    rw [yielded_succ]
    exact h

/-- **The pagination protocol**, whatever the store answers. Each request is the one that is due
after the exchanges before it: the first one has the key to start after, later ones have the token
of the page before. Requests are sent only when all items received so far have been delivered, the
items are delivered in order, and nothing follows when no request is due. -/
theorem outcomes_paged :
    Listing.outcomes limit n (lister.start startAfter) store =
      ((lister.run startAfter limit n store).1, (lister.run startAfter limit n store).2.1,
        (lister.run startAfter limit n store).2.2.store) ∧
    lister.exchanges startAfter limit 0 store = [] ∧
    (∀ before x rest, lister.exchanges startAfter limit n store = before ++ x :: rest →
      lister.due startAfter before = some x.request) ∧
    (∀ x ∈ lister.exchanges startAfter limit n store, x.request.bucket = lister.bucket ∧
      x.request.keyPrefix = lister.keyPrefix ∧ x.request.maxKeys = lister.pageSize ∧
      (x.request.token = none ∨ x.request.startAfter = none)) ∧
    lister.yielded startAfter limit n store <+:
      (lister.exchanges startAfter limit n store).flatMap Exchange.items ∧
    ∃ r sent,
      (lister.run startAfter limit (n + 1) store).1 =
        (lister.run startAfter limit n store).1 ++ [r] ∧
      lister.exchanges startAfter limit (n + 1) store =
        lister.exchanges startAfter limit n store ++ sent ∧
      (∀ i < sent.length,
        (lister.exchanges startAfter limit n store ++ sent.take i).flatMap Exchange.items =
          lister.yielded startAfter limit n store) ∧
      (r = none → sent.length = limit ∨
        lister.due startAfter (lister.exchanges startAfter limit (n + 1) store) = none ∧
        (lister.exchanges startAfter limit (n + 1) store).flatMap Exchange.items =
          lister.yielded startAfter limit n store) ∧
      (lister.due startAfter (lister.exchanges startAfter limit n store) = none → sent = [] ∧
        ((lister.exchanges startAfter limit n store).flatMap Exchange.items =
          lister.yielded startAfter limit n store → r = none)) := by
  have hrecounts := lister.recounts_run startAfter limit n store
  have hafter := lister.recounts_run startAfter limit (n + 1) store
  obtain ⟨sent, hsent, hbefore, -, hnone⟩ := hrecounts.next limit
  have hexchanges : lister.exchanges startAfter limit (n + 1) store =
      lister.exchanges startAfter limit n store ++ sent := hsent
  have hrun := lister.run_succ startAfter limit n store
  have hyielded := lister.yielded_succ startAfter limit n store
  generalize (lister.run startAfter limit n store).2.1.next limit
    (lister.run startAfter limit n store).2.2 = out at hnone hrun hyielded
  refine ⟨Listing.outcomes_store limit n (lister.start startAfter) ⟨store, []⟩, rfl,
    hrecounts.requests, ?_, ⟨_, hrecounts.items.symm⟩, out.1, sent, by rw [hrun], hexchanges,
    hbefore, ?_, ?_⟩
  · intro x hx
    obtain ⟨before, rest, heq⟩ := List.append_of_mem hx
    exact request_of_due (hrecounts.requests before x rest heq)
  · rw [hexchanges]
    exact hnone
  · intro hdue
    have hnil : sent = [] := by
      cases sent with
      | nil => rfl
      | cons x rest => exact absurd (hafter.requests _ x rest hexchanges) (by simp [hdue])
    refine ⟨hnil, fun hall => ?_⟩
    have hitems := hafter.items
    rw [hexchanges, hnil, List.append_nil, hall, hyielded] at hitems
    have hlength := congrArg List.length hitems
    simp only [List.length_append, List.length_map] at hlength
    exact Option.toList_eq_nil_iff.1 (List.length_eq_zero_iff.1 (by omega))

/-- An empty page with a token is passed over within one call, and a failure ends the listing. -/
example : ((⟨"bucket", none, 2⟩ : Lister).run (some "a") 4 4
    (⟨[.ok ⟨[], some "t"⟩, .ok ⟨[⟨"b", 1⟩], some "u"⟩, .error ⟨.network, "", none⟩], []⟩ :
      ScriptedPages)).2.2.store.listLog =
    [⟨"bucket", none, 2, none, some "a"⟩, ⟨"bucket", none, 2, some "t", none⟩,
      ⟨"bucket", none, 2, some "u", none⟩] := rfl

end Lister

end ObjectFeed
