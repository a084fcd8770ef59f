import Mathlib.Logic.Function.Basic
import ObjectFeed.Proofs.Labels
import ObjectFeed.Proofs.ReadThrough

/-!
# Clients of the offset cache

Clients look offsets up, count records on them and write them back, each at its own pace. An update
overrides the count that the cache holds, whichever is larger, so the count of an identity is a
register: what is reported of it is what was written last. A client that writes back what it looked
up before another client's update takes the count back. The counts climb as long as the clients take
turns: what is written goes back to what the cache holds at that time. Counts have 64 bits, so a
client that counts beyond the largest one takes the count back to zero, too.

* `OffsetCache.Act`, `OffsetCache.Clients`: what clients do, and the offsets that they have.
* `OffsetCache.timeline`: what is reported and what is written of an identity.
* `OffsetCache.inTurn`, `OffsetCache.unwrapped`: clients that take turns, and whose counts do not
  wrap around.
* `OffsetCache.Act.effect`: what an act does to an identity; `OffsetCache.Act.fresh_step` is about
  acts in turn.
* `OffsetCache.counts_climb`: **the counts are those of a register, and climb if clients take
  turns.**
* `OffsetCache.counts_fall`: they fall if one of them does not.
-/

namespace ObjectFeed

namespace OffsetCache

/-- What a client does with the offsets that it has, by name. In between something else may happen
to the store. -/
inductive Act (τ : Type) where
  | get (name : Nat) (k : OffsetKey)
  | create (name : Nat) (k : OffsetKey)
  | restore (name : Nat) (p : Properties)
  | clone (name source : Nat)
  | increment (name : Nat)
  | update (name : Nat)
  | change (f : τ → τ)

/-- The offsets that clients have, and the cache and the store that they share. -/
structure Clients (τ : Type) where
  offsets : Nat → Option Offset
  cache : OffsetCache
  store : τ

/-- What happens to an identity: its count is reported by a lookup, or written by an update. -/
inductive Mark where
  | reported (count : Nat)
  | written (count : Nat)
deriving DecidableEq, Repr

/-- The count that a mark is about. -/
def Mark.count : Mark → Nat
  | .reported n => n
  | .written n => n

/-- The count that a lookup reports. -/
def Mark.reported? : Mark → Option Nat
  | .reported n => some n
  | .written _ => none

/-- The marks of a register: after a count has been reported or written, it is reported until
another one is written. -/
def Registers : (held : Option Nat) → List Mark → Prop
  | _, [] => True
  | _, .written n :: ms => Registers (some n) ms
  | held, .reported n :: ms => (∀ m ∈ held, n = m) ∧ Registers (some n) ms

variable {τ : Type}

/-- A client has an offset under a name. -/
def Clients.put (s : Clients τ) (name : Nat) (o : Offset) : Clients τ :=
  { s with offsets := Function.update s.offsets name (some o) }

section Steps

variable [OffsetStore τ]

/-- What an act leads to. A name stays as it was if there is no offset for it. -/
def Act.apply : Act τ → Clients τ → Clients τ
  | .get name k, s =>
    match s.cache.get s.store k with
    | (.ok o, cache, store) => { s.put name o with cache, store }
    | (.error _, cache, store) => { s with cache, store }
  | .create name k, s => s.put name { key := k }
  | .restore name p, s =>
    match Offset.ofProperties p with
    | .ok o => s.put name o
    | .error _ => s
  | .clone name source, s => (s.offsets source).elim s (s.put name)
  | .increment name, s => (s.offsets name).elim s fun o => s.put name o.increment
  | .update name, s => (s.offsets name).elim s fun o => { s with cache := s.cache.update o }
  | .change f, s => { s with store := f s.store }

/-- The mark that an act leaves on an identity. -/
def Act.mark? (k : OffsetKey) : Act τ → Clients τ → Option Mark
  | .get _ l, s =>
    if l = k then (s.cache.get s.store l).1.toOption.map fun o => .reported o.count else none
  | .update name, s =>
    (s.offsets name).bind fun o => if o.key = k then some (.written o.count) else none
  | _, _ => none

/-- What is reported and what is written of an identity, by acts in a row. -/
def timeline (k : OffsetKey) : List (Act τ) → Clients τ → List Mark
  | [], _ => []
  | a :: as, s => (a.mark? k s).toList ++ timeline k as (a.apply s)

/-- The counts that lookups of an identity report. -/
def reports (k : OffsetKey) (as : List (Act τ)) (s : Clients τ) : List Nat :=
  (timeline k as s).filterMap Mark.reported?

/-- The names whose offsets go back to what the cache holds of an identity. A lookup of it gives
such a name, and an update of it leaves just the one that is written. -/
def Act.current (k : OffsetKey) (current : Nat → Bool) : Act τ → Clients τ → Nat → Bool
  | .get name l, s =>
    match (s.cache.get s.store l).1 with
    | .ok _ => Function.update current name (l == k)
    | .error _ => current
  | .create name _, _ => Function.update current name false
  | .restore name p, _ =>
    match Offset.ofProperties p with
    | .ok _ => Function.update current name false
    | .error _ => current
  | .clone name source, s =>
    match s.offsets source with
    | some _ => Function.update current name (current source)
    | none => current
  | .update name, s =>
    match s.offsets name with
    | some o => if o.key = k then (· == name) else current
    | none => current
  | .increment _, _ => current
  | .change _, _ => current

/-- What is written of an identity goes back to what the cache holds, unless nothing is known of it
yet. -/
def Act.inTurn (k : OffsetKey) (current : Nat → Bool) : Act τ → Clients τ → Bool
  | .update name, s =>
    (s.offsets name).all fun o => o.key != k || current name || (s.cache.slot? k).isNone
  | _, _ => true

/-- An offset that goes back to what the cache holds is counted beyond 64 bits. -/
def Act.wraps (current : Nat → Bool) : Act τ → Clients τ → Bool
  | .increment name, s => current name && (s.offsets name).any fun o => pow2 64 ≤ o.count + 1
  | _, _ => false

/-- Something holds of each act, by the names that go back to what the cache holds of an identity at
that time. -/
def throughout (holds : (current : Nat → Bool) → Act τ → Clients τ → Bool) (k : OffsetKey) :
    (current : Nat → Bool) → List (Act τ) → Clients τ → Bool
  | _, [], _ => true
  | current, a :: as, s =>
    holds current a s && throughout holds k (a.current k current s) as (a.apply s)

/-- Clients take turns with an identity. -/
def inTurn (k : OffsetKey) : (current : Nat → Bool) → List (Act τ) → Clients τ → Bool :=
  throughout (fun current a s => a.inTurn k current s) k

/-- No count that goes back to what the cache holds of an identity wraps around. -/
def unwrapped (k : OffsetKey) : (current : Nat → Bool) → List (Act τ) → Clients τ → Bool :=
  throughout (fun current a s => !a.wraps current s) k

variable {k : OffsetKey} {s : Clients τ}

/-- What a lookup reports is the count of what the cache holds from then on, and held before if it
was known. -/
theorem reported_cases (c : OffsetCache) (t : τ) (k : OffsetKey) :
    (∃ o p c' t', c.get t k = (.ok o, c', t') ∧ c'.slot? k = some p ∧ Offset.ofProperties p = .ok o ∧
      (c.slot? k = some p ∨ c.slot? k = none)) ∨
    ∃ e c' t', c.get t k = (.error e, c', t') ∧ (c.slot? k ≠ none → c'.slot? k = c.slot? k) := by
  cases hslot : c.slot? k with
  | some p =>
    have hget := get_of_known hslot t
    cases ho : Offset.ofProperties p with
    | ok o =>
      rw [ho] at hget
      exact .inl ⟨o, p, c, t, hget, hslot, ho, .inl rfl⟩
    | error e =>
      rw [ho] at hget
      exact .inr ⟨_, c, t, hget, fun _ => hslot⟩
  | none =>
    obtain ⟨⟨found, t'⟩, hl⟩ : ∃ out, OffsetStore.lookup t k.properties = out := ⟨_, rfl⟩
    cases found with
    | error e => exact .inr ⟨_, c, t', get_of_failure hslot hl, fun h => absurd rfl h⟩
    | ok found =>
      have hget := get_of_found hslot hl
      cases ho : Offset.ofProperties (initial k found) with
      | ok o =>
        rw [ho] at hget
        refine .inl ⟨o, initial k found, _, t', hget, ?_, ho, .inr rfl⟩
        rw [slot?_fill, if_pos rfl]
      | error e =>
        rw [ho] at hget
        exact .inr ⟨_, _, t', hget, fun h => absurd rfl h⟩

/-- A count is held by the cache: it is the count of what is known, if that is an offset. -/
def HeldBy (c : OffsetCache) (k : OffsetKey) (n : Nat) : Prop :=
  ∃ p, c.slot? k = some p ∧ ∀ o, Offset.ofProperties p = .ok o → o.count = n

/-- What an act does to an identity: its count is reported or written, or else what is known of it
stays. -/
inductive Act.Effect (k : OffsetKey) (s : Clients τ) (a : Act τ) : Prop
  | reported {name : Nat} {o : Offset} (hget : a = .get name k)
      (hmark : a.mark? k s = some (.reported o.count)) (hanswer : (s.cache.get s.store k).1 = .ok o)
      (hoffsets : (a.apply s).offsets = Function.update s.offsets name (some o))
      (hheld : HeldBy (a.apply s).cache k o.count) (hsame : ∀ n, HeldBy s.cache k n → o.count = n)
  | written {name : Nat} {o : Offset} (hupdate : a = .update name) (ho : s.offsets name = some o)
      (hkey : o.key = k) (hmark : a.mark? k s = some (.written o.count))
      (hoffsets : (a.apply s).offsets = s.offsets) (hheld : HeldBy (a.apply s).cache k o.count)
  | unmarked (hmark : a.mark? k s = none)
      (hkeep : ∀ n, HeldBy s.cache k n → HeldBy (a.apply s).cache k n)

theorem Act.effect_get (name : Nat) (l k : OffsetKey) (s : Clients τ) :
    Effect k s (.get name l) := by
  by_cases hl : l = k
  · subst hl
    rcases reported_cases s.cache s.store l with
      ⟨o, p, c', t', hget, hp, ho, hbefore⟩ | ⟨e, c', t', hget, hslot⟩
    · have hcount : ∀ o', Offset.ofProperties p = .ok o' → o'.count = o.count := by
        intro o' ho'
        rw [ho] at ho'
        rw [Except.ok.inj ho']
      refine .reported rfl ?_ (congrArg Prod.fst hget) ?_ ?_ ?_
      · simp only [mark?, if_true, hget]
        rfl
      · simp only [apply, hget, Clients.put]
      · simp only [apply, hget]
        exact ⟨p, hp, hcount⟩
      · rintro n ⟨q, hq, hn⟩
        rcases hbefore with hsame | hnone
        · obtain rfl := Option.some.inj (hq.symm.trans hsame)
          exact hn o ho
        · rw [hnone] at hq
          cases hq
    · refine .unmarked ?_ ?_
      · simp only [mark?, if_true, hget]
        rfl
      · rintro n ⟨q, hq, hn⟩
        simp only [apply, hget]
        exact ⟨q, (hslot (by simp [hq])).trans hq, hn⟩
  · have hother := slot?_get_of_ne (c := s.cache) (Ne.symm hl) s.store
    refine .unmarked (by simp only [mark?, if_neg hl]) ?_
    rintro n ⟨q, hq, hn⟩
    refine ⟨q, ?_, hn⟩
    simp only [apply]
    obtain ⟨⟨r, c', t'⟩, hget⟩ : ∃ out, s.cache.get s.store l = out := ⟨_, rfl⟩
    rw [hget] at hother ⊢
    cases r <;> exact hother.trans hq

theorem Act.effect_update (name : Nat) (k : OffsetKey) (s : Clients τ) :
    Effect k s (.update name) := by
  cases ho : s.offsets name with
  | none =>
    refine .unmarked (by simp only [mark?, ho, Option.bind_none]) fun n h => ?_
    simp only [apply, ho]
    exact h
  | some o =>
    by_cases hk : o.key = k
    · subst hk
      refine .written rfl ho rfl ?_ ?_ ?_
      · simp only [mark?, ho, Option.bind_some, if_true]
      · simp only [apply, ho, Option.elim_some]
      · simp only [apply, ho, Option.elim_some]
        obtain ⟨p, hp, hn⟩ := Option.bind_eq_some_iff.1 (count_of_update s.cache o)
        refine ⟨p, hp, fun o' ho' => ?_⟩
        obtain ⟨-, -, -, -, hcount, -⟩ := Offset.ofProperties_eq_ok ho'
        exact Offset.eq_of_countOf hn hcount
    · refine .unmarked (by simp only [mark?, ho, Option.bind_some, if_neg hk]) ?_
      rintro n ⟨q, hq, hn⟩
      simp only [apply, ho, Option.elim_some]
      refine ⟨q, ?_, hn⟩
      rw [slot?_update, if_neg (Ne.symm hk)]
      exact hq

/-- **What any act does to an identity.** -/
theorem Act.effect (a : Act τ) (k : OffsetKey) (s : Clients τ) : Effect k s a := by
  cases a with
  | get name l => exact effect_get name l k s
  | update name => exact effect_update name k s
  | create name l => exact .unmarked rfl fun n h => h
  | change f => exact .unmarked rfl fun n h => h
  | restore name p =>
    refine .unmarked rfl fun n h => ?_
    simp only [apply]
    cases Offset.ofProperties p <;> exact h
  | clone name source =>
    refine .unmarked rfl fun n h => ?_
    simp only [apply]
    cases s.offsets source <;> exact h
  | increment name =>
    refine .unmarked rfl fun n h => ?_
    simp only [apply]
    cases s.offsets name <;> exact h

/-- **The count of an identity is a register.** By induction on the acts: what was reported or
written last is held by the cache. -/
theorem registers_timeline (k : OffsetKey) (as : List (Act τ)) (s : Clients τ) {held : Option Nat}
    (h : ∀ n ∈ held, HeldBy s.cache k n) : Registers held (timeline k as s) := by
  induction as generalizing s held with
  | nil => trivial
  | cons a as ih =>
    cases a.effect k s with
    | reported _ hmark _ _ hheld hsame =>
      rw [timeline, hmark]
      refine ⟨fun n hn => hsame n (h n hn), ih _ ?_⟩
      rintro n ⟨⟩
      exact hheld
    | written _ _ _ hmark _ hheld =>
      rw [timeline, hmark]
      refine ih _ ?_
      rintro n ⟨⟩
      exact hheld
    | unmarked hmark hkeep =>
      rw [timeline, hmark]
      exact ih _ fun n hn => hkeep n (h n hn)

/-- **What goes back to what the cache holds** after an act that leaves no mark went back to it
before, and its count is no smaller unless it has wrapped around. -/
theorem Act.current_of_unmarked {a : Act τ} {current : Nat → Bool} (hmark : a.mark? k s = none)
    (hwraps : a.wraps current s = false) {name : Nat} (h : a.current k current s name = true) :
    ∃ source, current source = true ∧ ∀ o, s.offsets source = some o →
      ∃ o', (a.apply s).offsets name = some o' ∧ o.count ≤ o'.count := by
  have hsame : ∀ {s' : Clients τ}, s'.offsets name = s.offsets name → current name = true →
      ∃ source, current source = true ∧ ∀ o, s.offsets source = some o →
        ∃ o', s'.offsets name = some o' ∧ o.count ≤ o'.count :=
    fun hs hcurrent => ⟨name, hcurrent, fun o ho => ⟨o, hs.trans ho, Nat.le_refl _⟩⟩
  -- a name that is given to another offset no longer goes back to what the cache holds
  have hgiven : ∀ {o : Offset} {name' : Nat}, Function.update current name' false name = true →
      (s.put name' o).offsets name = s.offsets name ∧ current name = true := by
    intro o name' hcurrent
    by_cases hname : name = name'
    · rw [hname, Function.update_self] at hcurrent
      cases hcurrent
    · rw [Function.update_of_ne hname] at hcurrent
      exact ⟨Function.update_of_ne hname _ _, hcurrent⟩
  cases a with
  | create name' l =>
    obtain ⟨hs, hcurrent⟩ := hgiven (o := { key := l }) h
    exact hsame hs hcurrent
  | change f => exact hsame rfl h
  | restore name' p =>
    simp only [Act.current, apply] at h ⊢
    cases ho : Offset.ofProperties p with
    | ok o =>
      rw [ho] at h
      obtain ⟨hs, hcurrent⟩ := hgiven (o := o) h
      exact hsame hs hcurrent
    | error e =>
      rw [ho] at h
      exact hsame rfl h
  | get name' l =>
    simp only [Act.current, apply, mark?] at h hmark ⊢
    obtain ⟨⟨r, c', t'⟩, hget⟩ : ∃ out, s.cache.get s.store l = out := ⟨_, rfl⟩
    rw [hget] at h hmark ⊢
    cases r with
    | error e => exact hsame rfl h
    | ok o =>
      by_cases hl : l = k
      · rw [if_pos hl] at hmark
        cases hmark
      · rw [beq_eq_false_iff_ne.2 hl] at h
        obtain ⟨hs, hcurrent⟩ := hgiven (o := o) h
        exact hsame hs hcurrent
  | clone name' source =>
    simp only [Act.current, apply] at h ⊢
    cases ho : s.offsets source with
    | none =>
      rw [ho] at h
      exact hsame rfl h
    | some o =>
      simp only [ho] at h
      by_cases hname : name = name'
      · subst hname
        rw [Function.update_self] at h
        refine ⟨source, h, fun o' ho' => ⟨o, Function.update_self _ _ _, ?_⟩⟩
        rw [ho] at ho'
        rw [Option.some.inj ho']
      · rw [Function.update_of_ne hname] at h
        exact hsame (Function.update_of_ne hname _ _) h
  | increment name' =>
    simp only [apply]
    cases ho : s.offsets name' with
    | none => exact hsame rfl h
    | some o =>
      by_cases hname : name = name'
      · subst hname
        have hcurrent : current name = true := h
        have hsmall : o.count + 1 < pow2 64 := by
          simpa [Act.wraps, hcurrent, ho] using hwraps
        refine ⟨name, hcurrent, fun o' ho' => ⟨o.increment, Function.update_self _ _ _, ?_⟩⟩
        rw [ho] at ho'
        rw [← Option.some.inj ho', Offset.increment_eq_next hsmall]
        exact Nat.le_succ _
      · exact hsame (Function.update_of_ne hname _ _) h
  | update name' =>
    simp only [Act.current, apply, mark?] at h hmark ⊢
    cases ho : s.offsets name' with
    | none =>
      rw [ho] at h
      exact hsame rfl h
    | some o =>
      rw [ho] at h hmark
      by_cases hk : o.key = k
      · rw [Option.bind_some, if_pos hk] at hmark
        cases hmark
      · simp only [if_neg hk] at h
        exact hsame rfl h

/-- An offset that goes back to what the cache holds has at least the count that it holds. -/
def Fresh (s : Clients τ) (current : Nat → Bool) (held : Option Nat) : Prop :=
  ∀ name, current name = true → ∃ o n, s.offsets name = some o ∧ held = some n ∧ n ≤ o.count

/-- **One act of clients that take turns**: a mark is about no smaller count than the held one, and
what goes back to what the cache holds is still fresh. -/
theorem Act.fresh_step (a : Act τ) {current : Nat → Bool} {held : Option Nat}
    (h : ∀ n ∈ held, HeldBy s.cache k n) (hfresh : Fresh s current held)
    (hturn : a.inTurn k current s = true) (hwraps : a.wraps current s = false) :
    ∃ held', (∀ n ∈ held', HeldBy (a.apply s).cache k n) ∧
      Fresh (a.apply s) (a.current k current s) held' ∧
      match a.mark? k s with
      | none => held' = held
      | some m => held' = some m.count ∧ ∀ n ∈ held, n ≤ m.count := by
  cases a.effect k s with
  | @reported name o hget hmark hanswer hoffsets hheld hsame =>
    subst hget
    refine ⟨some o.count, fun n hn => Option.mem_some.1 hn ▸ hheld, fun name' hname' => ?_, ?_⟩
    · rw [hoffsets]
      by_cases hname : name' = name
      · rw [hname]
        exact ⟨o, o.count, Function.update_self _ _ _, rfl, Nat.le_refl _⟩
      · simp only [Act.current, hanswer, Function.update_of_ne hname] at hname'
        obtain ⟨o', n, ho', hn, hle⟩ := hfresh name' hname'
        refine ⟨o', o.count, (Function.update_of_ne hname _ _).trans ho', rfl, ?_⟩
        rw [hsame n (h n hn)]
        exact hle
    · rw [hmark]
      exact ⟨rfl, fun n hn => Nat.le_of_eq (hsame n (h n hn)).symm⟩
  | @written name o hupdate ho hkey hmark hoffsets hheld =>
    subst hupdate
    refine ⟨some o.count, fun n hn => Option.mem_some.1 hn ▸ hheld, fun name' hname' => ?_, ?_⟩
    · simp only [Act.current, ho, hkey, if_true, beq_iff_eq] at hname'
      rw [hoffsets, hname']
      exact ⟨o, o.count, ho, rfl, Nat.le_refl _⟩
    · rw [hmark]
      refine ⟨rfl, fun n hn => ?_⟩
      simp only [Act.inTurn, ho, Option.all_some, hkey, bne_self_eq_false, Bool.false_or,
        Bool.or_eq_true] at hturn
      rcases hturn with hname | hunknown
      · obtain ⟨o', n', ho', hn', hle⟩ := hfresh name hname
        obtain rfl := Option.some.inj (ho.symm.trans ho')
        obtain rfl : n' = n := Option.some.inj (hn'.symm.trans hn)
        exact hle
      · obtain ⟨p, hp, -⟩ := h n hn
        rw [hp] at hunknown
        cases hunknown
  | unmarked hmark hkeep =>
    refine ⟨held, fun n hn => hkeep n (h n hn), fun name hname => ?_, by rw [hmark]⟩
    obtain ⟨source, hsource, hcount⟩ := Act.current_of_unmarked hmark hwraps hname
    obtain ⟨o, n, ho, hn, hle⟩ := hfresh source hsource
    obtain ⟨o', ho', hle'⟩ := hcount o ho
    exact ⟨o', n, ho', hn, Nat.le_trans hle hle'⟩

/-- **The counts climb if clients take turns** and no count wraps around. By induction on the acts:
none is below the held one. -/
theorem pairwise_timeline (k : OffsetKey) (as : List (Act τ)) (s : Clients τ) (held : Option Nat)
    (current : Nat → Bool) (h : ∀ n ∈ held, HeldBy s.cache k n) (hfresh : Fresh s current held)
    (hturn : inTurn k current as s = true) (hunwrapped : unwrapped k current as s = true) :
    (∀ m ∈ timeline k as s, ∀ n ∈ held, n ≤ m.count) ∧
      (timeline k as s).Pairwise fun m m' => m.count ≤ m'.count := by
  induction as generalizing s held current with
  | nil => exact ⟨nofun, List.Pairwise.nil⟩
  | cons a as ih =>
    obtain ⟨hact, hrest⟩ := (Bool.and_eq_true _ _).mp hturn
    obtain ⟨hsmall, hrest'⟩ := (Bool.and_eq_true _ _).mp hunwrapped
    have hwraps : a.wraps current s = false := by simpa using hsmall
    obtain ⟨held', hheld, hnext, hmark⟩ := a.fresh_step h hfresh hact hwraps
    obtain ⟨hlater, hclimb⟩ := ih _ held' _ hheld hnext hrest hrest'
    rw [timeline]
    cases hm : a.mark? k s with
    | none =>
      rw [hm] at hmark
      obtain rfl : held' = held := hmark
      exact ⟨hlater, hclimb⟩
    | some m =>
      rw [hm] at hmark
      obtain ⟨rfl, hle⟩ : held' = some m.count ∧ ∀ n ∈ held, n ≤ m.count := hmark
      refine ⟨fun m' hm' n hn => ?_,
        List.pairwise_cons.2 ⟨fun m' hm' => hlater m' hm' _ rfl, hclimb⟩⟩
      rcases List.mem_cons.1 hm' with rfl | hm'
      · exact hle n hn
      · exact Nat.le_trans (hle n hn) (hlater m' hm' _ rfl)

/-- **The counts of an identity are those of a register**, whatever clients do in whatever order:
what is reported is what was written last. So a count is taken back by an update with a smaller one.
If clients take turns and no count wraps around, the counts that are reported never fall. -/
theorem counts_climb (k : OffsetKey) (as : List (Act τ)) (s : Clients τ) :
    Registers none (timeline k as s) ∧
      (inTurn k (fun _ => false) as s = true → unwrapped k (fun _ => false) as s = true →
        (reports k as s).Pairwise (· ≤ ·)) := by
  refine ⟨registers_timeline k as s nofun, fun hturn hunwrapped => ?_⟩
  obtain ⟨-, hclimb⟩ := pairwise_timeline k as s none (fun _ => false) nofun nofun hturn hunwrapped
  refine List.pairwise_filterMap.2 (hclimb.imp fun {m m'} hle n hn n' hn' => ?_)
  cases m with
  | written c => cases hn
  | reported c =>
    cases m' with
    | written c' => cases hn'
    | reported c' =>
      rw [← Option.some.inj hn, ← Option.some.inj hn']
      exact hle

end Steps

/-- Clients without offsets, over an empty cache and an empty store. -/
def idleClients : Clients MemoryOffsets := ⟨fun _ => none, {}, {}⟩

/-- Each client writes back what it looked up before the next one looks it up. -/
theorem counts_climb_sample :
    let acts : List (Act MemoryOffsets) :=
      [.get 0 sampleKey, .increment 0, .update 0, .get 1 sampleKey, .increment 1, .update 1,
        .get 2 sampleKey]
    reports sampleKey acts idleClients = [0, 1, 2] ∧
      (reports sampleKey acts idleClients).Pairwise (· ≤ ·) := by
  intro acts
  have hturn : inTurn sampleKey (fun _ => false) acts idleClients = true := by rfl
  have hunwrapped : unwrapped sampleKey (fun _ => false) acts idleClients = true := by rfl
  exact ⟨by rfl, (counts_climb sampleKey acts idleClients).2 hturn hunwrapped⟩

/-- A client that counts beyond the largest count takes the count back to zero, though it is the
only client. -/
example :
    let largest : Offset := { key := sampleKey, count := pow2 64 - 1 }
    let acts : List (Act MemoryOffsets) :=
      [.change (·.put sampleKey.properties largest.properties), .get 0 sampleKey, .increment 0,
        .update 0, .get 1 sampleKey]
    inTurn sampleKey (fun _ => false) acts idleClients = true ∧
      reports sampleKey acts idleClients = [pow2 64 - 1, 0] := by
  intro largest acts
  exact ⟨by decide +kernel, by decide +kernel⟩

/-- **The counts fall** if a client writes back what it looked up before another client's update. -/
theorem counts_fall :
    let acts : List (Act MemoryOffsets) :=
      [.get 0 sampleKey, .get 1 sampleKey, .increment 1, .update 1, .get 2 sampleKey, .update 0,
        .get 3 sampleKey]
    reports sampleKey acts idleClients = [0, 0, 1, 0] ∧
      ¬ (reports sampleKey acts idleClients).Pairwise (· ≤ ·) := by
  intro acts
  have hreports : reports sampleKey acts idleClients = [0, 0, 1, 0] := by rfl
  refine ⟨hreports, ?_⟩
  rw [hreports]
  decide

end OffsetCache

end ObjectFeed
