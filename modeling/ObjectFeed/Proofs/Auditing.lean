import ObjectFeed.Proofs.Acts

/-!
# Audited stores

Stores that keep what they were asked for besides listings: the bodies that were handed out, refused
and taken back, and the identities that were looked up. So theorems can speak of what a feed has not
asked for.

* `Audited`, `Access`: an object store and what became of its bodies.
* `AuditedOffsets`, `Lookup`: an offset store and its answers.
* `Feed.act_audited`: **auditing changes nothing of what a feed does.**
* `World.Spares`: nothing was asked for that belongs to a key.
-/

namespace ObjectFeed

/-- What becomes of a body: it is handed out or refused, or it is taken back. -/
inductive Access where
  | handed (key : String)
  | refused (key : String)
  | released
deriving DecidableEq

/-- The key that was fetched, if any. -/
def Access.key? : Access → Option String
  | .handed key => some key
  | .refused key => some key
  | .released => none

/-- A look-up and its answer. -/
structure Lookup where
  identity : Properties
  answer : Except StoreError (Option Properties)

/-- Nothing was persisted under the identity. -/
def Lookup.isVacant (l : Lookup) : Bool :=
  match l.answer with
  | .ok none => true
  | _ => false

/-- An object store and what became of its bodies, in order. -/
structure Audited (σ : Type) where
  store : σ
  accesses : List Access := []

/-- An offset store and its look-ups, in order. -/
structure AuditedOffsets (τ : Type) where
  store : τ
  lookups : List Lookup := []

variable {σ τ : Type} [ObjectStore σ] [OffsetStore τ]

namespace Audited

omit [ObjectStore σ] in
/-- Keeps what has become of a body. -/
def note (s : Audited σ) (a : Access) (store : σ) : Audited σ := ⟨store, s.accesses ++ [a]⟩

/-- The page of the store. -/
def list (s : Audited σ) (r : ListRequest) : Except StoreError Page × Audited σ :=
  match ObjectStore.list s.store r with
  | (answer, store) => (answer, { s with store })

/-- The body that the store hands out. -/
def fetch (s : Audited σ) (bucket key : String) : Except StoreError Body × Audited σ :=
  match ObjectStore.fetch s.store bucket key with
  | (.ok body, store) => (.ok body, s.note (.handed key) store)
  | (.error e, store) => (.error e, s.note (.refused key) store)

instance : ObjectStore (Audited σ) where
  list := list
  fetch := fetch
  release s := s.note .released (ObjectStore.release s.store)

/-- A store answers as the audited one does. -/
theorem objectView : ObjectView (Audited.store : Audited σ → σ) where
  list _ _ := rfl
  release _ := rfl
  fetch s bucket key := by
    show ObjectStore.fetch s.store bucket key =
      ((s.fetch bucket key).1, (s.fetch bucket key).2.store)
    unfold fetch
    obtain ⟨answer, store⟩ := ObjectStore.fetch s.store bucket key
    cases answer <;> rfl

/-- A fetch is one access to the key. -/
theorem accesses_fetch (s : Audited σ) (bucket key : String) :
    ∃ a, a.key? = some key ∧
      (ObjectStore.fetch s bucket key).2.accesses = s.accesses ++ [a] := by
  show ∃ a, a.key? = some key ∧ (s.fetch bucket key).2.accesses = s.accesses ++ [a]
  unfold fetch
  obtain ⟨answer, store⟩ := ObjectStore.fetch s.store bucket key
  cases answer with
  | ok body => exact ⟨.handed key, rfl, rfl⟩
  | error e => exact ⟨.refused key, rfl, rfl⟩

theorem accesses_release (s : Audited σ) :
    (ObjectStore.release s).accesses = s.accesses ++ [.released] := rfl

end Audited

namespace AuditedOffsets

/-- The properties that the store has. -/
def lookup (s : AuditedOffsets τ) (identity : Properties) :
    Except StoreError (Option Properties) × AuditedOffsets τ :=
  match OffsetStore.lookup s.store identity with
  | (answer, store) => (answer, ⟨store, s.lookups ++ [⟨identity, answer⟩]⟩)

instance : OffsetStore (AuditedOffsets τ) where
  lookup := lookup

/-- A store answers as the audited one does. -/
theorem offsetView : OffsetView (AuditedOffsets.store : AuditedOffsets τ → τ) :=
  ⟨fun _ _ => rfl⟩

theorem lookups_lookup (s : AuditedOffsets τ) (identity : Properties) :
    (OffsetStore.lookup s identity).2.lookups =
      s.lookups ++ [⟨identity, (OffsetStore.lookup s identity).1⟩] := rfl

end AuditedOffsets

/-- A world whose stores are audited. -/
abbrev AuditedWorld (σ τ : Type) := World (Audited σ) (AuditedOffsets τ)

/-- The world whose stores are audited from now on. -/
def World.audited (w : World σ τ) : AuditedWorld σ τ :=
  { objects := ⟨w.objects, []⟩, offsets := ⟨w.offsets, []⟩, cache := w.cache }

/-- The world without the audit. -/
def World.unaudited (w : AuditedWorld σ τ) : World σ τ :=
  w.view Audited.store AuditedOffsets.store

/-- **Auditing changes nothing of what a feed does.** -/
theorem Feed.act_audited (limit : Feed → World σ τ → Nat) (a : Act) (f : Feed)
    (w : AuditedWorld σ τ) :
    let audited := act (fun f w => limit f w.unaudited) a f w
    act limit a f w.unaudited = (audited.1, audited.2.1, audited.2.2.unaudited) :=
  act_view Audited.objectView AuditedOffsets.offsetView limit a f w

/-- A look-up asks the store at most for its own identity. -/
theorem OffsetCache.get_keeps {P : τ → Prop} (c : OffsetCache) {t : τ} {k : OffsetKey} (h : P t)
    (hlookup : P (OffsetStore.lookup t k.properties).2) : P (c.get t k).2.2 := by
  cases hslot : c.slot? k with
  | some p =>
    rw [get_of_known hslot]
    exact h
  | none =>
    obtain ⟨⟨answer, t'⟩, hl⟩ : ∃ out, OffsetStore.lookup t k.properties = out := ⟨_, rfl⟩
    rw [hl] at hlookup
    cases answer with
    | error e =>
      rw [get_of_failure hslot hl]
      exact hlookup
    | ok found =>
      rw [get_of_found hslot hl]
      exact hlookup

section Spares

omit [ObjectStore σ] [OffsetStore τ]

/-- No body was asked for under the key. -/
def Audited.Spares (key : String) (before s : Audited σ) : Prop :=
  ∃ accesses, s.accesses = before.accesses ++ accesses ∧ ∀ a ∈ accesses, a.key? ≠ some key

/-- No identity of the key was looked up. -/
def AuditedOffsets.Spares (key : String) (before s : AuditedOffsets τ) : Prop :=
  ∃ lookups, s.lookups = before.lookups ++ lookups ∧
    ∀ l ∈ lookups, ∀ k : OffsetKey, k.objectKey = key → l.identity ≠ k.properties

/-- Since a world before, nothing was asked for that belongs to the key. -/
def World.Spares (key : String) (before w : AuditedWorld σ τ) : Prop :=
  before.objects.Spares key w.objects ∧ before.offsets.Spares key w.offsets

variable {key : String}

theorem Audited.Spares.refl (s : Audited σ) : s.Spares key s := ⟨[], by simp, by simp⟩

theorem AuditedOffsets.Spares.refl (s : AuditedOffsets τ) : s.Spares key s :=
  ⟨[], by simp, by simp⟩

/-- An access to another key spares the key. -/
theorem Audited.Spares.note {before s s' : Audited σ} (h : before.Spares key s) {a : Access}
    (hs : s'.accesses = s.accesses ++ [a]) (ha : a.key? ≠ some key) : before.Spares key s' := by
  obtain ⟨accesses, haccesses, hspared⟩ := h
  refine ⟨accesses ++ [a], by rw [hs, haccesses, List.append_assoc], ?_⟩
  intro b hb
  rcases List.mem_append.1 hb with hb | hb
  · exact hspared b hb
  · rw [List.mem_singleton.1 hb]
    exact ha

end Spares

/-- A look-up of another key's identity spares the key. -/
theorem AuditedOffsets.Spares.lookup {key : String} {before s : AuditedOffsets τ}
    (h : before.Spares key s) {k : OffsetKey} (hk : k.objectKey ≠ key) :
    before.Spares key (OffsetStore.lookup s k.properties).2 := by
  obtain ⟨lookups, hlookups, hspared⟩ := h
  refine ⟨lookups ++ [⟨k.properties, (OffsetStore.lookup s k.properties).1⟩], ?_, ?_⟩
  · rw [lookups_lookup, hlookups, List.append_assoc]
  · intro l hl k' hk'
    rcases List.mem_append.1 hl with hl | hl
    · exact hspared l hl k' hk'
    · rw [List.mem_singleton.1 hl]
      intro hsame
      rw [OffsetKey.properties_injective hsame] at hk
      exact hk hk'

end ObjectFeed
