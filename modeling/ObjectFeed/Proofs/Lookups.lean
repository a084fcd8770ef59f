import ObjectFeed.Proofs.Auditing
import ObjectFeed.Proofs.ReadThrough

/-!
# Look-ups of the offset cache

The cache asks the store for an identity until a look-up succeeds, and never again after that or
after an update, whatever comes of the properties that it finds. So the number of look-ups is
settled by what the callers see: the failures that are passed on to them, and the identities that
became known for them. A constructor may return a failure of its own that looks like one of the
store, and another cache asks the store for itself.

* `OffsetCache.Use`, `OffsetCache.serve`: what is asked of a cache, and its answers.
* `OffsetCache.getWith_cases`: what a request for an offset can do.
* `OffsetCache.filled`: the identities that look-ups have made known.
* `OffsetCache.madeUp`: the failures that constructors return as if a look-up had failed.
* `OffsetCache.Accounts`, `OffsetCache.accounts_serve`: **the look-ups of any uses.**
* `OffsetCache.asked_once`: **no identity is asked for again once it is known.**
* `OffsetCache.asked_apart`: failures that are made up, and other caches, do not count.
-/

namespace ObjectFeed

/-- The failure of a look-up. -/
def Lookup.failure? (l : Lookup) : Option StoreError :=
  match l.answer with
  | .error e => some e
  | .ok _ => none

namespace OffsetCache

/-- What is asked of a cache: an offset that a constructor makes, or an update. In between something
else may happen to the store. -/
inductive Use (τ : Type) where
  | get (k : OffsetKey) (construct : Properties → Except Error Offset)
  | update (o : Offset)
  | change (f : τ → τ)

/-- The same use over an audited store, where a change is no look-up. -/
def Use.audited {τ : Type} : Use τ → Use (AuditedOffsets τ)
  | .get k construct => .get k construct
  | .update o => .update o
  | .change f => .change fun s => ⟨f s.store, s.lookups⟩

section Serve

variable {τ : Type} [OffsetStore τ]

/-- The cache and the store after a use. -/
def Use.apply : Use τ → OffsetCache × τ → OffsetCache × τ
  | .get k construct, (c, t) => (c.getWith construct t k).2
  | .update o, (c, t) => (c.update o, t)
  | .change f, (c, t) => (c, f t)

/-- What a use returns, if it returns anything. -/
def Use.answers : Use τ → OffsetCache × τ → List (Except Error Offset)
  | .get k construct, (c, t) => [(c.getWith construct t k).1]
  | _, _ => []

/-- Uses in a row, with what they return. -/
def serve : List (Use τ) → OffsetCache × τ → List (Except Error Offset) × OffsetCache × τ
  | [], s => ([], s)
  | u :: us, s => (u.answers s ++ (serve us (u.apply s)).1, (serve us (u.apply s)).2)

/-- The identity that a look-up of a use has made known. -/
def Use.fills? : Use τ → OffsetCache × τ → Option OffsetKey
  | .get k construct, (c, t) =>
    if (c.slot? k).isNone && ((c.getWith construct t k).2.1.slot? k).isSome then some k else none
  | _, _ => none

/-- The identities that look-ups have made known, in order. -/
def filled : List (Use τ) → OffsetCache × τ → List OffsetKey
  | [], _ => []
  | u :: us, s => (u.fills? s).toList ++ filled us (u.apply s)

end Serve

/-- The failures of a store that are returned. -/
def refusals (answers : List (Except Error Offset)) : List StoreError :=
  answers.filterMap fun r =>
    match r with
    | .error (.store e) => some e
    | _ => none

theorem refusals_cons (r : Except Error Offset) (rs : List (Except Error Offset)) :
    refusals (r :: rs) = refusals [r] ++ refusals rs := by
  unfold refusals
  rw [← List.filterMap_append, List.singleton_append]

theorem refusals_of_ne {r : Except Error Offset} (h : ∀ e, r ≠ .error (.store e)) :
    refusals [r] = [] := by
  rcases r with e | o
  · cases e with
    | store e => exact (h e rfl).elim
    | offset | decode | restricted | config => rfl
  · rfl

section Constructors

variable {τ : Type} [OffsetStore τ]

/-- The failure of a store that a constructor returns for properties that are known or found. -/
def Use.madeUp : Use τ → OffsetCache × τ → List StoreError
  | .get k construct, (c, t) =>
    match (c.load t k).1 with
    | .ok (some p) => refusals [construct p]
    | _ => []
  | _, _ => []

/-- The failures of a store that constructors return, in order. -/
def madeUp : List (Use τ) → OffsetCache × τ → List StoreError
  | [], _ => []
  | u :: us, s => u.madeUp s ++ madeUp us (u.apply s)

/-- No constructor returns a failure of a store of its own. -/
def Honest (us : List (Use τ)) : Prop :=
  ∀ k construct, .get k construct ∈ us → ∀ p e, construct p ≠ .error (.store e)

/-- What a request returns after its look-up, if there was one, is all that can be made up. -/
theorem Use.madeUp_get {construct : Properties → Except Error Offset} {c : OffsetCache} {t : τ}
    {k : OffsetKey} (h : ∀ e, (c.load t k).1 ≠ .error e) :
    Use.madeUp (.get k construct) (c, t) = refusals [(c.getWith construct t k).1] := by
  simp only [madeUp, getWith]
  generalize c.load t k = out at h
  obtain ⟨found, c', t'⟩ := out
  rcases found with e | _ | p
  · exact (h e rfl).elim
  · rfl
  · rfl

theorem madeUp_of_honest {us : List (Use τ)} (h : Honest us) (s : OffsetCache × τ) :
    madeUp us s = [] := by
  induction us generalizing s with
  | nil => rfl
  | cons u us ih =>
    have hrest := ih (fun k construct hmem => h k construct (List.mem_cons_of_mem _ hmem))
      (u.apply s)
    have hfirst : u.madeUp s = [] := by
      cases u with
      | update | change => rfl
      | get k construct =>
        simp only [Use.madeUp]
        split
        · exact refusals_of_ne (h k construct List.mem_cons_self _)
        · rfl
    rw [madeUp, hfirst, hrest, List.append_nil]

end Constructors

section Steps

variable {τ : Type} [OffsetStore τ] {c : OffsetCache} {t : τ} {k : OffsetKey}

/-- **What a request can do**: it returns what is known, it passes the failure of the store on, or
it makes known what the store has, whatever the constructor makes of that. -/
theorem getWith_cases (construct : Properties → Except Error Offset) (c : OffsetCache) (t : τ)
    (k : OffsetKey) :
    (∃ p, c.slot? k = some p ∧ c.getWith construct t k = (construct p, c, t)) ∨
    (c.slot? k = none ∧ ∃ e t', OffsetStore.lookup t k.properties = (.error e, t') ∧
      c.getWith construct t k = (.error (.store e), c, t')) ∨
    (c.slot? k = none ∧ ∃ found t' answer, OffsetStore.lookup t k.properties = (.ok found, t') ∧
      c.getWith construct t k = (answer, c.fill k (initial k found), t') ∧
      (answer = .ok { key := k } ∨ ∃ p, answer = construct p)) := by
  cases hslot : c.slot? k with
  | some p => exact .inl ⟨p, rfl, by simp [getWith, load, hslot]⟩
  | none =>
    right
    obtain ⟨⟨found, t'⟩, hl⟩ : ∃ out, OffsetStore.lookup t k.properties = out := ⟨_, rfl⟩
    rcases found with e | _ | p
    · exact .inl ⟨rfl, e, t', hl, by simp [getWith, load, hslot, hl]⟩
    · refine .inr ⟨rfl, none, t', .ok { key := k }, hl, ?_, .inl rfl⟩
      simp [getWith, load, hslot, hl, initial]
    · cases hempty : p.isEmpty with
      | true =>
        refine .inr ⟨rfl, some p, t', .ok { key := k }, hl, ?_, .inl rfl⟩
        simp [getWith, load, hslot, hl, initial, hempty]
      | false =>
        refine .inr ⟨rfl, some p, t', construct p, hl, ?_, .inr ⟨p, rfl⟩⟩
        simp [getWith, load, hslot, hl, initial, hempty]

/-- A look-up that succeeds leaves no failure. -/
theorem load_of_found {found : Option Properties} {t' : τ} (hslot : c.slot? k = none)
    (hl : OffsetStore.lookup t k.properties = (.ok found, t')) (e : StoreError) :
    (c.load t k).1 ≠ .error e := by
  rcases found with _ | p
  · simp [load, hslot, hl]
  · cases hempty : p.isEmpty <;> simp [load, hslot, hl, hempty]

/-- What is known of an identity stays known. -/
theorem Use.slot_apply (u : Use τ) (s : OffsetCache × τ) (h : s.1.slot? k ≠ none) :
    (u.apply s).1.slot? k ≠ none := by
  obtain ⟨c, t⟩ := s
  have hfill : ∀ l p, (c.fill l p).slot? k ≠ none := by
    intro l p
    rw [slot?_fill]
    split
    · simp
    · exact h
  cases u with
  | change f => exact h
  | update o =>
    show (c.update o).slot? k ≠ none
    unfold OffsetCache.update
    split <;> exact hfill _ _
  | get l construct =>
    show (c.getWith construct t l).2.1.slot? k ≠ none
    rcases getWith_cases construct c t l with
      ⟨p, -, hget⟩ | ⟨-, e, t', -, hget⟩ | ⟨-, found, t', answer, -, hget, -⟩
    · rw [hget]
      exact h
    · rw [hget]
      exact h
    · rw [hget]
      exact hfill _ _

theorem slot_serve (us : List (Use τ)) (s : OffsetCache × τ) (h : s.1.slot? k ≠ none) :
    (serve us s).2.1.slot? k ≠ none := by
  induction us generalizing s with
  | nil => exact h
  | cons u us ih => exact ih (u.apply s) (u.slot_apply s h)

theorem serve_append (us vs : List (Use τ)) (s : OffsetCache × τ) :
    serve (us ++ vs) s =
      ((serve us s).1 ++ (serve vs (serve us s).2).1, (serve vs (serve us s).2).2) := by
  induction us generalizing s with
  | nil => rfl
  | cons u us ih => simp only [List.cons_append, serve, ih, List.append_assoc]

/-- An update makes its identity known. -/
theorem slot_of_update {o : Offset} {us : List (Use τ)} (h : .update o ∈ us)
    (s : OffsetCache × τ) : (serve us s).2.1.slot? o.key ≠ none := by
  obtain ⟨before, after, rfl⟩ := List.append_of_mem h
  rw [serve_append]
  refine slot_serve after _ ?_
  show ((serve before s).2.1.update o).slot? o.key ≠ none
  rw [slot?_update, if_pos rfl]
  simp

end Steps

section Audit

variable {τ : Type} [OffsetStore τ]

/-- The look-ups that a use makes: one of an identity that is not known. -/
def Use.lookups : Use τ → OffsetCache × τ → List Lookup
  | .get k _, (c, t) =>
    if (c.slot? k).isNone then [⟨k.properties, (OffsetStore.lookup t k.properties).1⟩] else []
  | _, _ => []

/-- The look-ups that uses in a row make. -/
def lookups : List (Use τ) → OffsetCache × τ → List Lookup
  | [], _ => []
  | u :: us, s => u.lookups s ++ lookups us (u.apply s)

/-- A use over an audited store does the same, and its look-ups are kept. -/
theorem Use.apply_audited (u : Use τ) (c : OffsetCache) (s : AuditedOffsets τ) :
    u.audited.apply (c, s) = ((u.apply (c, s.store)).1,
      ⟨(u.apply (c, s.store)).2, s.lookups ++ u.lookups (c, s.store)⟩) ∧
    u.audited.answers (c, s) = u.answers (c, s.store) := by
  cases u with
  | update o => simp [audited, apply, answers, lookups]
  | change f => simp [audited, apply, answers, lookups]
  | get k construct =>
    have hlookup : OffsetStore.lookup s k.properties =
        ((OffsetStore.lookup s.store k.properties).1,
          ⟨(OffsetStore.lookup s.store k.properties).2,
            s.lookups ++ [⟨k.properties, (OffsetStore.lookup s.store k.properties).1⟩]⟩) := rfl
    simp only [audited, apply, answers, lookups, getWith, load]
    cases hslot : c.slot? k with
    | some p => simp
    | none =>
      rw [hlookup]
      generalize OffsetStore.lookup s.store k.properties = out
      obtain ⟨found, t'⟩ := out
      rcases found with e | _ | p
      · simp
      · simp
      · cases hempty : p.isEmpty <;> simp [hempty]

/-- **Uses over an audited store do the same, and all their look-ups are kept.** -/
theorem serve_audited (us : List (Use τ)) (c : OffsetCache) (s : AuditedOffsets τ) :
    serve (us.map Use.audited) (c, s) = ((serve us (c, s.store)).1, (serve us (c, s.store)).2.1,
      ⟨(serve us (c, s.store)).2.2, s.lookups ++ lookups us (c, s.store)⟩) := by
  induction us generalizing c s with
  | nil => simp [serve, lookups]
  | cons u us ih =>
    obtain ⟨happly, hanswers⟩ := u.apply_audited c s
    simp only [List.map_cons, serve, happly, hanswers, ih, lookups, List.append_assoc]

/-- A look-up is one of an identity that is not known, and its failure is returned. -/
theorem Use.lookups_cases (u : Use τ) (s : OffsetCache × τ) :
    u.lookups s = [] ∨ ∃ k construct answer, u = .get k construct ∧ s.1.slot? k = none ∧
      u.lookups s = [⟨k.properties, answer⟩] ∧
      ∀ e, answer = .error e → u.answers s = [.error (.store e)] := by
  obtain ⟨c, t⟩ := s
  cases u with
  | update | change => exact .inl rfl
  | get k construct =>
    cases hslot : c.slot? k with
    | some p => exact .inl (by simp [lookups, hslot])
    | none =>
      refine .inr ⟨k, construct, _, rfl, hslot, by simp [lookups, hslot]; rfl, fun e he => ?_⟩
      rcases getWith_cases construct c t k with
        ⟨p, hp, -⟩ | ⟨-, e', t', hl, hget⟩ | ⟨-, found, t', answer, hl, -⟩
      · rw [hslot] at hp
        cases hp
      · rw [hl] at he
        cases he
        simp only [answers, hget]
      · rw [hl] at he
        cases he

/-- The look-ups of uses from a cache on, the identities that they make known, the failures that are
made up, and what the uses return. -/
structure Accounts (c : OffsetCache) (ls : List Lookup) (keys : List OffsetKey)
    (made : List StoreError) (answers : List (Except Error Offset)) : Prop where
  unknown : ∀ l ∈ ls, ∃ k, l.identity = k.properties ∧ c.slot? k = none
  found : (ls.filter (·.failure?.isNone)).map (·.identity) = keys.map (·.properties)
  distinct : keys.Nodup
  fresh : ∀ k ∈ keys, c.slot? k = none
  returned : (ls.filterMap Lookup.failure?).Sublist (refusals answers)
  accounted : (refusals answers).Perm (ls.filterMap Lookup.failure? ++ made)

namespace Accounts

variable {c c' : OffsetCache} {ls : List Lookup} {keys : List OffsetKey} {made : List StoreError}
variable {answers : List (Except Error Offset)} {k : OffsetKey}

theorem nil (c : OffsetCache) : Accounts c [] [] [] [] :=
  ⟨by simp, rfl, List.nodup_nil, by simp, List.Sublist.refl _, List.Perm.refl _⟩

/-- A cache that knows more is asked for less. -/
theorem learn (h : Accounts c' ls keys made answers)
    (hc : ∀ l, c.slot? l ≠ none → c'.slot? l ≠ none) : Accounts c ls keys made answers := by
  have hback : ∀ l, c'.slot? l = none → c.slot? l = none := fun l hl =>
    Classical.not_not.1 fun hne => hc l hne hl
  refine ⟨fun l hl => ?_, h.found, h.distinct, fun k hk => hback k (h.fresh k hk), h.returned,
    h.accounted⟩
  obtain ⟨k, hk, hslot⟩ := h.unknown l hl
  exact ⟨k, hk, hback k hslot⟩

/-- What a constructor returns is no look-up. -/
theorem known (h : Accounts c ls keys made answers) (r : Except Error Offset) :
    Accounts c ls keys (refusals [r] ++ made) (r :: answers) := by
  refine ⟨h.unknown, h.found, h.distinct, h.fresh, ?_, ?_⟩
  · rw [refusals_cons]
    exact h.returned.trans (List.sublist_append_right ..)
  · rw [refusals_cons]
    exact (h.accounted.append_left _).trans (by
      rw [← List.append_assoc, ← List.append_assoc]
      exact List.perm_append_comm.append_right made)

/-- A look-up that fails makes nothing known. -/
theorem failed (h : Accounts c ls keys made answers) (hslot : c.slot? k = none)
    (e : StoreError) : Accounts c (⟨k.properties, .error e⟩ :: ls) keys made
      (.error (.store e) :: answers) where
  unknown := List.forall_mem_cons.2 ⟨⟨k, rfl, hslot⟩, h.unknown⟩
  found := h.found
  distinct := h.distinct
  fresh := h.fresh
  returned := h.returned.cons_cons e
  accounted := h.accounted.cons e

/-- A look-up that succeeds is the last one of its identity. -/
theorem succeeded {p : Properties} (h : Accounts (c.fill k p) ls keys made answers)
    (hslot : c.slot? k = none) (r : Except Error Offset) (found : Option Properties) :
    Accounts c (⟨k.properties, .ok found⟩ :: ls) (k :: keys) (refusals [r] ++ made)
      (r :: answers) := by
  have hlater : Accounts c ls keys (refusals [r] ++ made) (r :: answers) := by
    refine (h.learn fun l hl => ?_).known r
    rw [slot?_fill]
    split
    · simp
    · exact hl
  have hnotMem : k ∉ keys := by
    intro hk
    have hfresh := h.fresh k hk
    rw [slot?_fill, if_pos rfl] at hfresh
    cases hfresh
  exact ⟨List.forall_mem_cons.2 ⟨⟨k, rfl, hslot⟩, hlater.unknown⟩,
    congrArg (k.properties :: ·) hlater.found, List.nodup_cons.2 ⟨hnotMem, hlater.distinct⟩,
    List.forall_mem_cons.2 ⟨hslot, hlater.fresh⟩, hlater.returned, hlater.accounted⟩

end Accounts

/-- **The look-ups of any uses**: which identities they are of, how often they succeed, and what
becomes of their failures. -/
theorem accounts_serve (us : List (Use τ)) (s : OffsetCache × τ) :
    Accounts s.1 (lookups us s) (filled us s) (madeUp us s) (serve us s).1 := by
  induction us generalizing s with
  | nil => exact .nil s.1
  | cons u us ih =>
    have hrest := ih (u.apply s)
    obtain ⟨c, t⟩ := s
    unfold lookups filled madeUp serve
    cases u with
    | change f => exact hrest
    | update o =>
      exact hrest.learn fun l hl => Use.slot_apply (.update o) (c, t) hl
    | get k construct =>
      simp only [Use.apply] at hrest
      simp only [Use.lookups, Use.fills?, Use.answers, Use.apply]
      rcases getWith_cases construct c t k with
        ⟨p, hslot, hget⟩ | ⟨hslot, e, t', hl, hget⟩ | ⟨hslot, found, t', answer, hl, hget, -⟩
      · rw [Use.madeUp_get (by simp [load, hslot]), hget]
        rw [hget] at hrest
        simpa [hslot] using hrest.known (construct p)
      · have hnone : Use.madeUp (.get k construct) (c, t) = [] := by
          simp [Use.madeUp, load, hslot, hl]
        rw [hnone, hget]
        rw [hget] at hrest
        simpa [hslot, hl] using hrest.failed hslot e
      · rw [Use.madeUp_get (load_of_found hslot hl), hget]
        rw [hget] at hrest
        simpa [hslot, hl] using hrest.succeeded hslot answer found

/-- An identity that a look-up has made known is known from then on. -/
theorem slot_of_filled {k : OffsetKey} (us : List (Use τ)) (s : OffsetCache × τ)
    (h : k ∈ filled us s) : (serve us s).2.1.slot? k ≠ none := by
  induction us generalizing s with
  | nil => cases h
  | cons u us ih =>
    rcases List.mem_append.1 h with hfirst | hrest
    · refine slot_serve us _ ?_
      obtain ⟨c, t⟩ := s
      cases u with
      | update | change => cases hfirst
      | get l construct =>
        simp only [Use.fills?] at hfirst
        split at hfirst
        · rename_i hfills
          obtain rfl : k = l := by simpa using hfirst
          rw [Bool.and_eq_true, Option.isSome_iff_ne_none] at hfills
          exact hfills.2
        · cases hfirst
    · exact ih _ hrest

/-- An identity is known after a look-up of it has succeeded. -/
theorem slot_of_found {k : OffsetKey} {us : List (Use τ)} {s : OffsetCache × τ} {l : Lookup}
    (hl : l ∈ lookups us s) (hk : l.identity = k.properties) (hfound : l.failure? = none) :
    (serve us s).2.1.slot? k ≠ none := by
  have haccounts := accounts_serve us s
  have hmem : k.properties ∈ (filled us s).map (·.properties) := by
    rw [← haccounts.found, List.mem_map]
    exact ⟨l, List.mem_filter.2 ⟨hl, by rw [hfound]; rfl⟩, hk⟩
  obtain ⟨k', hk', hsame⟩ := List.mem_map.1 hmem
  rw [OffsetKey.properties_injective hsame] at hk'
  exact slot_of_filled us s hk'

/-- What is known is not looked up. -/
theorem identity_ne_of_known {k : OffsetKey} {us : List (Use τ)} {s : OffsetCache × τ}
    (h : s.1.slot? k ≠ none) {l : Lookup} (hl : l ∈ lookups us s) : l.identity ≠ k.properties := by
  obtain ⟨k', hk', hslot⟩ := (accounts_serve us s).unknown l hl
  rw [hk']
  intro hsame
  rw [OffsetKey.properties_injective hsame] at hslot
  exact h hslot

/-- Look-ups fail or succeed. -/
theorem length_lookups (ls : List Lookup) : ls.length =
    (ls.filterMap Lookup.failure?).length + (ls.filter (·.failure?.isNone)).length := by
  induction ls with
  | nil => rfl
  | cons l ls ih =>
    cases hl : l.failure? with
    | none =>
      simp only [List.filterMap_cons, List.filter_cons, hl, Option.isNone_none, if_true,
        List.length_cons, ih]
      omega
    | some e =>
      simp only [List.filterMap_cons, List.filter_cons, hl, Option.isNone_some, List.length_cons,
        Bool.false_eq_true, if_false, ih]
      omega

/-- A store that counts its look-ups has counted those of the uses. -/
theorem queries_serve {queries : τ → Nat}
    (hlookup : ∀ t i, queries (OffsetStore.lookup t i).2 = queries t + 1) {us : List (Use τ)}
    (hchange : ∀ g, .change g ∈ us → ∀ t, queries (g t) = queries t) (s : OffsetCache × τ) :
    queries (serve us s).2.2 = queries s.2 + (lookups us s).length := by
  induction us generalizing s with
  | nil => rfl
  | cons u us ih =>
    have hrest := ih (fun g hg => hchange g (List.mem_cons_of_mem _ hg)) (u.apply s)
    have hstep : queries (u.apply s).2 = queries s.2 + (u.lookups s).length := by
      obtain ⟨c, t⟩ := s
      cases u with
      | update o => rfl
      | change g => exact hchange g List.mem_cons_self t
      | get k construct =>
        have hone := hlookup t k.properties
        simp only [Use.apply, Use.lookups]
        rcases getWith_cases construct c t k with
          ⟨p, hslot, hget⟩ | ⟨hslot, e, t', hl, hget⟩ | ⟨hslot, found, t', answer, hl, hget, -⟩
        · simp [hget, hslot]
        · rw [hl] at hone
          simpa [hget, hslot] using hone
        · rw [hl] at hone
          simpa [hget, hslot] using hone
    unfold serve lookups
    rw [hrest, hstep, List.length_append, Nat.add_assoc]

end Audit

variable {τ : Type} [OffsetStore τ]

/-- **No identity is asked for again once it is known** to a cache that is empty at first, whatever
is asked of it and whatever constructors return. A use makes at most one look-up, of its identity,
and returns its failure. So there are as many look-ups as identities that requests made known and
as failures that are returned, less those that constructors make up, and stores count them. -/
theorem asked_once (t : τ) (us : List (Use τ)) :
    let run := serve (us.map .audited) ({}, AuditedOffsets.mk t [])
    let log := run.2.2.lookups
    let keys := filled us ({}, t)
    let made := madeUp us ({}, t)
    serve us ({}, t) = (run.1, run.2.1, run.2.2.store) ∧
      (∀ u : Use τ, (u.audited.apply run.2).2.lookups = log ∨
        ∃ k construct answer, u = .get k construct ∧
          (u.audited.apply run.2).2.lookups = log ++ [⟨k.properties, answer⟩] ∧
          ∀ e, answer = .error e → u.audited.answers run.2 = [.error (.store e)]) ∧
      (∀ k : OffsetKey, ((∃ l ∈ log, l.identity = k.properties ∧ l.failure? = none) ∨
          ∃ o, .update o ∈ us ∧ o.key = k) →
        ∀ more : List (Use τ), ∃ new, (serve (more.map .audited) run.2).2.2.lookups = log ++ new ∧
          ∀ l ∈ new, l.identity ≠ k.properties) ∧
      (log.filter (·.failure?.isNone)).map (·.identity) = keys.map (·.properties) ∧ keys.Nodup ∧
      log.length = (log.filterMap Lookup.failure?).length + keys.length ∧
      (log.filterMap Lookup.failure?).Sublist (refusals run.1) ∧
      (refusals run.1).Perm (log.filterMap Lookup.failure? ++ made) ∧ (Honest us → made = []) ∧
      ∀ queries : τ → Nat, (∀ t i, queries (OffsetStore.lookup t i).2 = queries t + 1) →
        (∀ g, .change g ∈ us → ∀ t, queries (g t) = queries t) →
        queries run.2.2.store = queries t + log.length ∧
          queries run.2.2.store + made.length =
            queries t + (refusals run.1).length + keys.length := by
  have haccounts := accounts_serve us (({}, t) : OffsetCache × τ)
  simp only [serve_audited, List.nil_append]
  have hlength : (lookups us (({}, t) : OffsetCache × τ)).length =
      ((lookups us (({}, t) : OffsetCache × τ)).filterMap Lookup.failure?).length +
        (filled us (({}, t) : OffsetCache × τ)).length := by
    have hfound := congrArg List.length haccounts.found
    rw [List.length_map, List.length_map] at hfound
    rw [length_lookups, hfound]
  refine ⟨trivial, fun u => ?_, fun k hk more => ⟨_, rfl, fun l hl => ?_⟩, haccounts.found,
    haccounts.distinct, hlength, haccounts.returned, haccounts.accounted,
    fun hhonest => madeUp_of_honest hhonest _, fun queries hlookup hchange => ?_⟩
  · obtain ⟨happly, hanswers⟩ := u.apply_audited (serve us ({}, t)).2.1
      ⟨(serve us ({}, t)).2.2, lookups us ({}, t)⟩
    rw [happly, hanswers]
    rcases u.lookups_cases (serve us ({}, t)).2 with hnone | ⟨k, construct, answer, hu, -, hone, he⟩
    · exact .inl (by rw [hnone, List.append_nil])
    · exact .inr ⟨k, construct, answer, hu, by rw [hone], he⟩
  · have hknown : (serve us (({}, t) : OffsetCache × τ)).2.1.slot? k ≠ none := by
      rcases hk with ⟨l', hl', hidentity, hfound⟩ | ⟨o, ho, rfl⟩
      · exact slot_of_found hl' hidentity hfound
      · exact slot_of_update ho _
    exact identity_ne_of_known hknown hl
  · have hqueries : queries (serve us ({}, t)).2.2 =
        queries t + (lookups us (({}, t) : OffsetCache × τ)).length :=
      queries_serve hlookup hchange ({}, t)
    have hrefusals := haccounts.accounted.length_eq
    rw [List.length_append] at hrefusals
    exact ⟨hqueries, by omega⟩

/-- The offset that is read from properties. -/
def read (p : Properties) : Except Error Offset := (Offset.ofProperties p).mapError .offset

/-- A failure that is made up by a constructor. -/
def ownFailure : StoreError := { kind := .other, message := "no offset" }

/-- A look-up that fails, one that finds properties which a constructor refuses, a failure that is
made up, and an update that comes before any look-up. -/
def sampleUses : List (Use MemoryOffsets) :=
  [.change fun t => { t with failures := 1 }, .get sampleKey read,
    .get sampleKey fun _ => .error (.offset (.missing "note")), .get sampleKey read,
    .get sampleKey fun _ => .error (.store ownFailure),
    .update { key := { sampleKey with objectKey := "c" } },
    .get { sampleKey with objectKey := "c" } read]

/-- A store that has the identity of an object. -/
def sampleOffsets : MemoryOffsets :=
  ({} : MemoryOffsets).put sampleKey.properties sampleKey.properties

theorem asked_once_sample :
    let run := serve (sampleUses.map .audited) ({}, AuditedOffsets.mk sampleOffsets [])
    (refusals run.1).length = 2 ∧ madeUp sampleUses ({}, sampleOffsets) = [ownFailure] ∧
      filled sampleUses ({}, sampleOffsets) = [sampleKey] ∧ run.2.2.store.queries = 2 := by
  intro run
  have hrefusals : (refusals run.1).length = 2 := by rfl
  have hmade : madeUp sampleUses ({}, sampleOffsets) = [ownFailure] := by rfl
  have hfilled : filled sampleUses ({}, sampleOffsets) = [sampleKey] := by rfl
  obtain ⟨-, -, -, -, -, -, -, -, -, hqueries⟩ := asked_once sampleOffsets sampleUses
  obtain ⟨-, htotal⟩ := hqueries (·.queries) (fun _ _ => rfl) (by simp [sampleUses])
  rw [hmade, hfilled] at htotal
  have hnone : sampleOffsets.queries = 0 := rfl
  have htwo : run.2.2.store.queries + 1 = 0 + 2 + 1 := by
    rw [← hrefusals, ← hnone]
    exact htotal
  exact ⟨hrefusals, hmade, hfilled, Nat.succ.inj htwo⟩

/-- **A failure that a constructor makes up stands for no look-up**: there is one, and it makes the
identity known. And a cache knows nothing of what another one has asked for: of two of them each
looks the identity up, without a failure. -/
theorem asked_apart :
    let refuse : List (Use MemoryOffsets) := [.get sampleKey fun _ => .error (.store ownFailure)]
    let refused := serve refuse ({}, sampleOffsets)
    let ask : List (Use MemoryOffsets) := [.get sampleKey read]
    let first := serve ask ({}, sampleOffsets)
    let second := serve ask ({}, first.2.2)
    (filled refuse ({}, sampleOffsets) = [sampleKey] ∧ refusals refused.1 = [ownFailure] ∧
      refused.2.2.queries = 1 ∧
      refused.2.2.queries ≠
        (refusals refused.1).length + (filled refuse ({}, sampleOffsets)).length) ∧
    filled ask ({}, sampleOffsets) = [sampleKey] ∧ filled ask ({}, first.2.2) = [sampleKey] ∧
      refusals (first.1 ++ second.1) = [] ∧ second.2.2.queries = 2 := by
  intro refuse refused ask first second
  have hrefused : refusals refused.1 = [ownFailure] := by rfl
  have hfilled : filled refuse ({}, sampleOffsets) = [sampleKey] := by rfl
  have hqueries : refused.2.2.queries = 1 := by rfl
  refine ⟨⟨hfilled, hrefused, hqueries, ?_⟩, by rfl, by rfl, by rfl, by rfl⟩
  rw [hrefused, hfilled, hqueries]
  decide

end OffsetCache

end ObjectFeed
