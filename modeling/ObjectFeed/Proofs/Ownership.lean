import ObjectFeed.Proofs.Clients
import ObjectFeed.Proofs.Lookups
import ObjectFeed.Proofs.Reconstruction

/-!
# Reserved properties

An offset is asked for a property in one way and writes all of them down in another, and the further
properties come last in the first and first in the second. The two agree because no further property
ever has a reserved name, whatever clients do with their offsets, with properties that were
persisted by anyone, and with a cache that merges them.

* `Offset.property?_eq`: the two ways agree on offsets whose further properties are separate.
* `Offset.setProperty_frame`: what setting a property leaves as it was.
* `OffsetCache.Move`: what clients do, setting properties and looking up with their own constructors
  included.
* `OffsetCache.Move.made_apply`, `OffsetCache.made_moves`: clients only ever have offsets that come
  about by the operations on them; one move, and moves in a row.
* `OffsetCache.reserved_owned`: **reserved properties are owned by the offset, and all others can be
  set one by one.**
-/

namespace ObjectFeed

namespace Offset

/-- **A property is what the persisted form has under its name.** -/
theorem property?_eq {o : Offset} (h : o.Separate) (name : String) :
    o.property? name = o.properties.get? name := by
  rw [get?_properties]
  unfold property?
  by_cases hc : name = "recordCount"
  · rw [if_pos hc, if_pos hc]
  · rw [if_neg hc, if_neg hc]
    by_cases hn : name ∈ ownedNames
    · -- here the further properties come first in one way and do not count in the other
      rw [if_pos hn, h name hn, Option.or_none]
    · rw [if_neg hn, OffsetKey.get?_properties_of_notMem hn, Option.none_or]

theorem setProperty_eq_none {o : Offset} {name : String} (h : name ∈ ownedNames) (v : Json) :
    o.setProperty name v = none := if_pos h

/-- **A property that can be set is the only one that changes.** -/
theorem setProperty_frame {o o' : Offset} {name : String} {v : Json}
    (h : o.setProperty name v = some o') :
    o'.key = o.key ∧ o'.count = o.count ∧
      ∀ n, o'.property? n = if n = name then some v else o.property? n := by
  obtain ⟨hname, rfl⟩ := setProperty_eq_some_iff.1 h
  refine ⟨rfl, rfl, fun n => ?_⟩
  have hcount : name ≠ "recordCount" := by
    rintro rfl
    exact hname (by decide)
  unfold property?
  by_cases hn : n = name
  · subst hn
    rw [if_neg hcount, if_neg hname, Dict.get?_insert, if_pos rfl, if_pos rfl]
  · rw [if_neg hn, Dict.get?_insert, if_neg hn]

end Offset

namespace OffsetCache

/-- What a client makes an offset of when it looks an identity up, by the operations on offsets. -/
structure Constructor where
  run : Properties → Except Error Offset
  made : ∀ p o, run p = .ok o → o.Made

/-- What a client does: any act, setting a property, or a lookup with its own constructor. -/
inductive Move (τ : Type) where
  | act (a : Act τ)
  | set (name : Nat) (property : String) (v : Json)
  | lookup (name : Nat) (k : OffsetKey) (construct : Constructor)

variable {τ : Type}

/-- All offsets that clients have came about by the operations on offsets. -/
def Clients.Made (s : Clients τ) : Prop := ∀ name o, s.offsets name = some o → o.Made

theorem Clients.Made.put {s : Clients τ} (h : s.Made) (name : Nat) {o : Offset} (ho : o.Made) :
    (s.put name o).Made := by
  intro n o' hput
  have hn : Function.update s.offsets name (some o) n = some o' := hput
  by_cases hname : n = name
  · subst hname
    rw [Function.update_self, Option.some.injEq] at hn
    rwa [← hn]
  · rw [Function.update_of_ne hname] at hn
    exact h n o' hn

section Moves

variable [OffsetStore τ]

/-- What a move leads to. A property that cannot be set leaves everything as it was. -/
def Move.apply : Move τ → Clients τ → Clients τ
  | .act a, s => a.apply s
  | .set name property v, s =>
    ((s.offsets name).bind (·.setProperty property v)).elim s (s.put name)
  | .lookup name k construct, s =>
    match s.cache.getWith construct.run s.store k with
    | (.ok o, cache, store) => { s.put name o with cache, store }
    | (.error _, cache, store) => { s with cache, store }

/-- Moves in a row. -/
def moves (ms : List (Move τ)) (s : Clients τ) : Clients τ := ms.foldl (fun s m => m.apply s) s

theorem made_of_getWith {construct : Properties → Except Error Offset}
    (hconstruct : ∀ p o, construct p = .ok o → o.Made) {c c' : OffsetCache} {t t' : τ}
    {k : OffsetKey} {o : Offset} (h : c.getWith construct t k = (.ok o, c', t')) : o.Made := by
  rcases getWith_cases construct c t k with
    ⟨p, -, hget⟩ | ⟨-, e, t₁, -, hget⟩ | ⟨-, found, t₁, answer, -, hget, hanswer⟩
  · have ho : construct p = .ok o := congrArg Prod.fst (hget.symm.trans h)
    exact hconstruct p o ho
  · cases hget.symm.trans h
  · have ho : answer = .ok o := congrArg Prod.fst (hget.symm.trans h)
    rcases hanswer with hnew | ⟨p, hp⟩
    · rw [← Except.ok.inj (hnew.symm.trans ho)]
      exact .new k
    · exact hconstruct p o (hp.symm.trans ho)

theorem made_of_read {p : Properties} {o : Offset} (h : read p = .ok o) : o.Made :=
  .read (mapError_eq_ok.1 h)

/-- **No act gives clients an offset that did not come about by the operations on offsets**, one
case per act. -/
theorem Act.made_apply (a : Act τ) {s : Clients τ} (h : s.Made) : (a.apply s).Made := by
  cases a with
  | get name k =>
    obtain ⟨⟨answer, c, t⟩, hget⟩ : ∃ out, s.cache.get s.store k = out := ⟨_, rfl⟩
    simp only [apply, hget]
    cases answer with
    | error e => exact h
    | ok o => exact h.put name (made_of_getWith (fun _ _ => made_of_read) hget)
  | create name k => exact h.put name (.new k)
  | restore name p =>
    simp only [apply]
    cases ho : Offset.ofProperties p with
    | error e => exact h
    | ok o => exact h.put name (.read ho)
  | clone name source =>
    simp only [apply]
    cases ho : s.offsets source with
    | none => exact h
    | some o => exact h.put name (h source o ho)
  | increment name =>
    simp only [apply]
    cases ho : s.offsets name with
    | none => exact h
    | some o => exact h.put name (h name o ho).increment
  | update name =>
    simp only [apply]
    cases s.offsets name with
    | none => exact h
    | some o => exact h
  | change f => exact h

theorem Move.made_apply (m : Move τ) {s : Clients τ} (h : s.Made) : (m.apply s).Made := by
  cases m with
  | act a => exact a.made_apply h
  | set name property v =>
    simp only [apply]
    cases ho : s.offsets name with
    | none => exact h
    | some o =>
      cases hset : o.setProperty property v with
      | none => simpa [hset] using h
      | some o' =>
        have ho' : o'.Made := (h name o ho).set hset
        simpa [hset] using h.put name ho'
  | lookup name k construct =>
    obtain ⟨⟨answer, c, t⟩, hget⟩ : ∃ out, s.cache.getWith construct.run s.store k = out := ⟨_, rfl⟩
    simp only [apply, hget]
    cases answer with
    | error e => exact h
    | ok o => exact h.put name (made_of_getWith construct.made hget)

/-- By induction on the moves. -/
theorem made_moves (ms : List (Move τ)) {s : Clients τ} (h : s.Made) : (moves ms s).Made := by
  induction ms generalizing s with
  | nil => exact h
  | cons m ms ih => exact ih (m.made_apply h)

/-- What becomes of the offset under a name when a property of it is set. -/
theorem apply_set {s : Clients τ} {name : Nat} {o : Offset} (ho : s.offsets name = some o)
    (property : String) (v : Json) :
    (Move.set name property v).apply s = (o.setProperty property v).elim s (s.put name) := by
  simp only [Move.apply, ho, Option.bind_some]

/-- **Reserved properties are owned by the offset, and all others can be set one by one**, whatever
clients do with offsets, a cache and a store. No offset has a reserved name among its further
properties, so asking for a property is looking it up in the persisted form. Setting a reserved one
fails and changes nothing; setting another one changes just that. -/
theorem reserved_owned (cache : OffsetCache) (store : τ) (ms : List (Move τ)) :
    let s := moves ms ⟨fun _ => none, cache, store⟩
    ∀ name o, s.offsets name = some o →
      (∀ n ∈ ownedNames, o.extra.get? n = none) ∧
      (∀ n, o.property? n = o.properties.get? n) ∧
      (∀ property v, property ∈ ownedNames →
        o.setProperty property v = none ∧ (Move.set name property v).apply s = s) ∧
      ∀ property v, property ∉ ownedNames → ∃ o', o.setProperty property v = some o' ∧
        (Move.set name property v).apply s = s.put name o' ∧
        o'.key = o.key ∧ o'.count = o.count ∧
        ∀ n, o'.property? n = if n = property then some v else o.property? n := by
  intro s name o ho
  have hnone : Clients.Made (⟨fun _ => none, cache, store⟩ : Clients τ) := by
    intro n o' h
    cases h
  have hseparate : o.Separate := (made_moves ms hnone name o ho).separate
  refine ⟨hseparate, Offset.property?_eq hseparate, fun property v hmem => ?_,
    fun property v hmem => ?_⟩
  · have hset := Offset.setProperty_eq_none (o := o) hmem v
    exact ⟨hset, by rw [apply_set ho, hset, Option.elim_none]⟩
  · have hset : o.setProperty property v =
        some { o with extra := o.extra.insert property v } :=
      Offset.setProperty_eq_some_iff.2 ⟨hmem, rfl⟩
    exact ⟨_, hset, by rw [apply_set ho, hset, Option.elim_some], Offset.setProperty_frame hset⟩

end Moves

/-- A client sets properties of an offset that it has read, reserved ones in vain, and another
client looks it up after an update. -/
def sampleMoves : List (Move MemoryOffsets) :=
  [.act (.restore 0 sampleKey.properties), .set 0 "recordCount" (.ofNat 9), .set 0 "note" .null,
    .act (.increment 0), .act (.update 0), .set 0 "topic" .null, .act (.get 1 sampleKey)]

theorem reserved_owned_sample :
    ∃ o, (moves sampleMoves ⟨fun _ => none, {}, ({} : MemoryOffsets)⟩).offsets 1 = some o ∧
      o.property? "recordCount" = some (.ofNat 1) ∧ o.properties.get? "note" = some .null ∧
      o.setProperty "topic" .null = none := by
  obtain ⟨o, ho⟩ : ∃ o,
      (moves sampleMoves ⟨fun _ => none, {}, ({} : MemoryOffsets)⟩).offsets 1 = some o :=
    ⟨_, rfl⟩
  obtain ⟨-, hread, howned, -⟩ := reserved_owned {} ({} : MemoryOffsets) sampleMoves 1 o ho
  have hnote : o.property? "note" = some .null := by
    cases ho
    rfl
  refine ⟨o, ho, ?_, (hread "note").symm.trans hnote, (howned "topic" .null (by decide)).1⟩
  cases ho
  rfl

end OffsetCache

end ObjectFeed
