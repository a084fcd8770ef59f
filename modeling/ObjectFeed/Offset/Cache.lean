import ObjectFeed.Error

/-!
# The offset cache

The offset store is asked for an identity until one lookup succeeds. From then on, and from the
first update on, the cache answers alone, and updates are merged into what it holds.

* `OffsetCache.load`: the properties of an identity.
* `OffsetCache.get`: the offset of an identity; `getWith` takes another constructor.
* `OffsetCache.update`: merges the properties of an offset.
-/

namespace ObjectFeed

/-- The properties known so far, by identity. -/
structure OffsetCache where
  slots : List (OffsetKey × Properties) := []

namespace OffsetCache

/-- What is known of an identity. -/
def slot? (c : OffsetCache) (k : OffsetKey) : Option Properties :=
  (c.slots.find? fun s => s.1 == k).map (·.2)

/-- Sets what is known of an identity. -/
def fill (c : OffsetCache) (k : OffsetKey) (p : Properties) : OffsetCache :=
  ⟨(k, p) :: c.slots.filter fun s => s.1 != k⟩

@[simp] theorem slot?_fill (c : OffsetCache) (k l : OffsetKey) (p : Properties) :
    (c.fill k p).slot? l = if l = k then some p else c.slot? l := by
  unfold slot? fill
  by_cases h : l = k
  · subst h; simp
  · simp only [List.find?_cons, beq_eq_false_iff_ne.2 (Ne.symm h), List.find?_filter, if_neg h]
    congr 2
    funext s
    by_cases hs : s.1 = l
    · simp [hs, h]
    · simp [hs]

variable {τ : Type} [OffsetStore τ]

/-- The properties of an identity: known ones, or else persisted ones that are not empty. If
there are none, the identity itself becomes known and nothing is returned. -/
def load (c : OffsetCache) (store : τ) (k : OffsetKey) :
    Except StoreError (Option Properties) × OffsetCache × τ :=
  match c.slot? k with
  | some p => (.ok (some p), c, store)
  | none =>
    match OffsetStore.lookup store k.properties with
    | (.error e, store) => (.error e, c, store)
    | (.ok none, store) => (.ok none, c.fill k k.properties, store)
    | (.ok (some p), store) =>
      if p.isEmpty then (.ok none, c.fill k k.properties, store)
      else (.ok (some p), c.fill k p, store)

/-- The offset that a constructor makes of the properties of an identity; one without records
if there are none. -/
def getWith (construct : Properties → Except Error Offset) (c : OffsetCache) (store : τ)
    (k : OffsetKey) : Except Error Offset × OffsetCache × τ :=
  match c.load store k with
  | (.error e, c, store) => (.error (.store e), c, store)
  | (.ok none, c, store) => (.ok { key := k }, c, store)
  | (.ok (some p), c, store) => (construct p, c, store)

/-- The offset of an identity. -/
def get (c : OffsetCache) (store : τ) (k : OffsetKey) : Except Error Offset × OffsetCache × τ :=
  c.getWith (fun p => (Offset.ofProperties p).mapError .offset) store k

/-- Merges the properties of an offset into what is known of its identity. -/
def update (c : OffsetCache) (o : Offset) : OffsetCache :=
  match c.slot? o.key with
  | some p => c.fill o.key (p.merge o.properties)
  | none => c.fill o.key o.properties

end OffsetCache

end ObjectFeed
