import Mathlib.Algebra.Group.Nat.Defs
import ObjectFeed.Proofs.PersistedForm

/-!
# Reading progress back

The persisted form of an offset is a map with free names, five of which are reserved. What a map
must have to be read as an offset is said value by value, and nothing is lost on the way there or
back.

* `Offset.Made`: the offsets that come about; `Offset.Made.separate` and `Offset.Made.count_lt` are
  by induction on how they do.
* `Json.natural?_eq_some_iff`, `Offset.textAt_eq_ok_iff`, `Offset.partitionOf_eq_ok_iff`,
  `Offset.countOf_eq_ok_iff`: what is read of each reserved name.
* `Offset.ofProperties_eq_ok_iff`: when properties are those of an offset.
* `Offset.Readable`: the conditions on each reserved name, without the offset.
* `Offset.properties_of_ofProperties`: the properties of what was read.
* `Offset.converts_back`: **offsets and properties convert back and forth without loss.**
-/

namespace ObjectFeed

theorem Json.natural?_eq_some_iff {v : Json} {bits n : Nat} :
    v.natural? bits = some n ↔ n < pow2 bits ∧ v = .ofNat n := by
  constructor
  · intro h
    refine ⟨Offset.natural?_lt h, ?_⟩
    unfold natural? at h
    split at h
    · rename_i m
      split at h
      · rename_i hm
        have hn : m.toNat = n := Option.some.inj h
        have hcast : m = (n : Int) := by omega
        rw [hcast]
        rfl
      · cases h
    · cases h
  · rintro ⟨hn, rfl⟩
    exact Offset.natural?_ofNat hn

namespace Offset

theorem setProperty_eq_some_iff {o o' : Offset} {name : String} {v : Json} :
    o.setProperty name v = some o' ↔
      name ∉ ownedNames ∧ o' = { o with extra := o.extra.insert name v } := by
  unfold setProperty
  by_cases hn : name ∈ ownedNames
  · simp [hn]
  · rw [if_neg hn, Option.some.injEq]
    constructor
    · rintro rfl
      exact ⟨hn, rfl⟩
    · rintro ⟨-, rfl⟩
      rfl

/-- The offsets that come about: the one of an identity without records, those read from
properties, and those that are got from others by setting a property or counting a record. -/
inductive Made : Offset → Prop
  | new (k : OffsetKey) : Made { key := k }
  | read {p : Properties} {o : Offset} (h : ofProperties p = .ok o) : Made o
  | set {o o' : Offset} {name : String} {v : Json} (ho : Made o)
      (h : o.setProperty name v = some o') : Made o'
  | increment {o : Offset} (ho : Made o) : Made o.increment

theorem separate_new (k : OffsetKey) : Separate { key := k } := by
  intro name _
  exact Dict.get?_empty name

theorem Separate.set {o o' : Offset} {name : String} {v : Json} (ho : o.Separate)
    (h : o.setProperty name v = some o') : o'.Separate := by
  obtain ⟨hname, rfl⟩ := setProperty_eq_some_iff.1 h
  intro n hn
  have hne : n ≠ name := by
    rintro rfl
    exact hname hn
  simp only [Dict.get?_insert, if_neg hne]
  exact ho n hn

/-- **No offset comes about with a reserved name among its further properties.** -/
theorem Made.separate {o : Offset} (h : o.Made) : o.Separate := by
  induction h with
  | new k => exact separate_new k
  | read h => exact separate_of_ofProperties h
  | set _ h ih => exact ih.set h
  | increment _ ih => exact ih

section Reading

variable {p : Properties} {o : Offset}

theorem textAt_eq_ok_iff {name s : String} :
    textAt p name = .ok s ↔ p.get? name = some (.string s) := by
  unfold textAt
  constructor
  · intro h
    split at h
    · rename_i s' hs
      rw [hs, Except.ok.inj h]
    · cases h
    · cases h
  · intro h
    rw [h]

theorem partitionOf_eq_ok_iff {q : Option UInt32} :
    partitionOf p = .ok q ↔ p.get? "partition" = some (OffsetKey.partitionJson q) := by
  refine ⟨fun h => ?_, partitionOf_eq_ok⟩
  unfold partitionOf at h
  split at h
  · cases h
  · rename_i hnull
    rw [hnull, ← Except.ok.inj h]
    rfl
  · rename_i v _ hv
    split at h
    · rename_i n hn
      obtain ⟨hlt, rfl⟩ := Json.natural?_eq_some_iff.1 hn
      -- a number that fits is written as it was read
      have hback : n.toUInt32.toNat = n := UInt32.toNat_ofNat_of_lt' hlt
      rw [hv, ← Except.ok.inj h, OffsetKey.partitionJson, Json.ofOption, hback]
    · cases h

/-- A count is the one that the properties have, or zero if they have none, or null. -/
def Counts (p : Properties) (n : Nat) : Prop :=
  (p.get? "recordCount").getD .null = .null ∧ n = 0 ∨
    p.get? "recordCount" = some (.ofNat n) ∧ n < 2 ^ 64

theorem countOf_eq_ok_iff {n : Nat} : countOf p = .ok n ↔ Counts p n := by
  constructor
  · intro h
    unfold countOf at h
    split at h
    · rename_i hnone
      exact .inl ⟨by rw [hnone]; rfl, (Except.ok.inj h).symm⟩
    · rename_i hnull
      exact .inl ⟨by rw [hnull]; rfl, (Except.ok.inj h).symm⟩
    · rename_i v _ hv
      split at h
      · rename_i m hm
        obtain rfl := Except.ok.inj h
        obtain ⟨hlt, rfl⟩ := Json.natural?_eq_some_iff.1 hm
        exact .inr ⟨hv, hlt⟩
      · cases h
  · rintro (⟨habsent, rfl⟩ | ⟨hsome, hlt⟩)
    · unfold countOf
      cases hv : p.get? "recordCount" with
      | none => rfl
      | some v =>
        have hnull : v = .null := by simpa [hv] using habsent
        rw [hnull]
    · exact countOf_natural hsome (natural?_ofNat hlt)

/-- Properties have the identity of an offset if they have each of its four values. -/
theorem identity_iff {k : OffsetKey} :
    (∀ name ∈ ownedNames, name ≠ "recordCount" → p.get? name = k.properties.get? name) ↔
      p.get? "bucket" = some (.string k.bucket) ∧ p.get? "objectKey" = some (.string k.objectKey) ∧
        p.get? "topic" = some (.string k.topic) ∧
        p.get? "partition" = some (OffsetKey.partitionJson k.partition) := by
  simp [ownedNames, OffsetKey.get?_properties]

/-- **When properties are those of an offset**: they have its identity, its count, and its further
properties under all other names. -/
theorem ofProperties_eq_ok_iff :
    ofProperties p = .ok o ↔
      (∀ name ∈ ownedNames, name ≠ "recordCount" → p.get? name = o.key.properties.get? name) ∧
        Counts p o.count ∧ o.extra = unowned p := by
  constructor
  · intro h
    obtain ⟨hb, ht, ho, hp, hc, hextra⟩ := ofProperties_eq_ok h
    have hidentity := identity_iff.2 ⟨textAt_eq_ok_iff.1 hb, textAt_eq_ok_iff.1 ho,
      textAt_eq_ok_iff.1 ht, partitionOf_eq_ok_iff.1 hp⟩
    exact ⟨hidentity, countOf_eq_ok_iff.1 hc, hextra⟩
  · rintro ⟨hkey, hc, hextra⟩
    exact ofProperties_eq hkey (countOf_eq_ok_iff.2 hc) hextra.symm

/-- What properties must have to be read as an offset. Any other names may be there, too. -/
structure Readable (p : Properties) : Prop where
  bucket : ∃ s, p.get? "bucket" = some (.string s)
  topic : ∃ s, p.get? "topic" = some (.string s)
  objectKey : ∃ s, p.get? "objectKey" = some (.string s)
  partition : p.get? "partition" = some .null ∨
    ∃ n, n < 2 ^ 32 ∧ p.get? "partition" = some (.ofNat n)
  recordCount : (p.get? "recordCount").getD .null = .null ∨
    ∃ n, n < 2 ^ 64 ∧ p.get? "recordCount" = some (.ofNat n)

/-- A partition is read from null and from the numbers of 32 bits. -/
theorem exists_partitionJson_iff {v : Option Json} :
    (∃ q, v = some (OffsetKey.partitionJson q)) ↔
      v = some .null ∨ ∃ n, n < 2 ^ 32 ∧ v = some (.ofNat n) := by
  constructor
  · rintro ⟨q, rfl⟩
    cases q with
    | none => exact .inl rfl
    | some n => exact .inr ⟨n.toNat, n.toNat_lt, rfl⟩
  · rintro (rfl | ⟨n, hn, rfl⟩)
    · exact ⟨none, rfl⟩
    · have hback : n.toUInt32.toNat = n := UInt32.toNat_ofNat_of_lt' hn
      exact ⟨some n.toUInt32, by rw [OffsetKey.partitionJson, Json.ofOption, hback]⟩

theorem readable_of_ofProperties (h : ofProperties p = .ok o) : Readable p := by
  obtain ⟨hidentity, hc, -⟩ := ofProperties_eq_ok_iff.1 h
  obtain ⟨hb, ho, ht, hp⟩ := identity_iff.1 hidentity
  refine ⟨⟨_, hb⟩, ⟨_, ht⟩, ⟨_, ho⟩, exists_partitionJson_iff.1 ⟨_, hp⟩, ?_⟩
  rcases hc with ⟨habsent, -⟩ | ⟨hsome, hlt⟩
  · exact .inl habsent
  · exact .inr ⟨o.count, hlt, hsome⟩

theorem Readable.ofProperties_eq_ok (h : Readable p) : ∃ o, ofProperties p = .ok o := by
  obtain ⟨bucket, hb⟩ := h.bucket
  obtain ⟨topic, ht⟩ := h.topic
  obtain ⟨objectKey, ho⟩ := h.objectKey
  obtain ⟨partition, hp⟩ := exists_partitionJson_iff.2 h.partition
  have hcount : ∃ n, Counts p n := by
    rcases h.recordCount with habsent | ⟨n, hn, hsome⟩
    · exact ⟨0, .inl ⟨habsent, rfl⟩⟩
    · exact ⟨n, .inr ⟨hsome, hn⟩⟩
  obtain ⟨count, hc⟩ := hcount
  have hidentity := (identity_iff (k := ⟨bucket, topic, partition, objectKey⟩)).2 ⟨hb, ho, ht, hp⟩
  exact ⟨⟨_, count, unowned p⟩, ofProperties_eq_ok_iff.2 ⟨hidentity, hc, rfl⟩⟩

/-- **What was read has the properties that it was read from**, with the count among them. -/
theorem properties_of_ofProperties (h : ofProperties p = .ok o) :
    o.properties = p.insert "recordCount" (.ofNat o.count) := by
  obtain ⟨hkey, -, hextra⟩ := ofProperties_eq_ok_iff.1 h
  refine Dict.ext_get? fun name => ?_
  rw [get?_properties, Dict.get?_insert]
  by_cases hc : name = "recordCount"
  · rw [if_pos hc, if_pos hc]
  · -- any other name is either one of the identity or a further one, and never both
    rw [if_neg hc, if_neg hc, hextra, get?_unowned]
    by_cases hn : name ∈ ownedNames
    · rw [if_pos hn, Option.or_none, hkey name hn hc]
    · rw [if_neg hn, OffsetKey.get?_properties_of_notMem hn, Option.none_or]

end Reading

/-- **No offset comes about with a count beyond 64 bits**: none is read, and counting on starts
again at zero. -/
theorem Made.count_lt {o : Offset} (h : o.Made) : o.count < 2 ^ 64 := by
  induction h with
  | new k => exact Nat.two_pow_pos 64
  | read h => exact count_lt_of_ofProperties h
  | set _ h ih =>
    obtain ⟨-, rfl⟩ := setProperty_eq_some_iff.1 h
    exact ih
  | @increment o _ _ => exact o.count_increment_lt

/-- **Offsets and properties convert back and forth without loss.** An offset that came about in
any way is read back from its properties. Properties are read just if they have what is `Readable`,
and what was read has these properties again, with its count where there was none. The properties of
an identity are read as the offset without records, so different identities have different ones. -/
theorem converts_back :
    (∀ o : Offset, o.Made → ofProperties o.properties = .ok o) ∧
      (∀ p : Properties, ((∃ o, ofProperties p = .ok o) ↔ Readable p) ∧
        ∀ o, ofProperties p = .ok o →
          o.properties = p.insert "recordCount" (.ofNat o.count) ∧ Counts p o.count) ∧
      ∀ k : OffsetKey, ofProperties k.properties = .ok { key := k } ∧
        ∀ l : OffsetKey, k.properties.same l.properties = true ↔ k = l := by
  refine ⟨fun o ho => ofProperties_properties ho.separate ho.count_lt, fun p => ⟨⟨?_, ?_⟩, ?_⟩,
    fun k => ⟨ofProperties_identity k, fun l => ?_⟩⟩
  · rintro ⟨o, ho⟩
    exact readable_of_ofProperties ho
  · exact Readable.ofProperties_eq_ok
  · intro o ho
    exact ⟨properties_of_ofProperties ho, (ofProperties_eq_ok_iff.1 ho).2.1⟩
  · rw [OffsetKey.same_properties]
    constructor
    · exact OffsetKey.properties_injective
    · rintro rfl
      rfl

/-- Properties with a null for the count, and with names that are nearly reserved. -/
def nearlyReserved : Properties :=
  .ofList
    [("bucket", .string "b"), ("topic", .string "t"), ("partition", .ofNat 7),
      ("objectKey", .string "k"), ("recordCount", .null), ("record_count", .ofNat 3),
      ("RecordCount", .null), ("", .string "x")]

theorem converts_back_sample :
    ∃ o o' : Offset, ofProperties nearlyReserved = .ok o ∧ o.count = 0 ∧
      o.properties = nearlyReserved.insert "recordCount" (.ofNat 0) ∧
      o.setProperty "recordCounts" .null = some o' ∧
      ofProperties o'.increment.properties = .ok o'.increment ∧
      ¬∃ o'', ofProperties (nearlyReserved.insert "partition" (.ofNat (2 ^ 32))) = .ok o'' := by
  obtain ⟨hmade, hread, -⟩ := converts_back
  have hreadable : Readable nearlyReserved :=
    ⟨⟨"b", by rfl⟩, ⟨"t", by rfl⟩, ⟨"k", by rfl⟩, .inr ⟨7, by decide, by rfl⟩, .inl (by rfl)⟩
  obtain ⟨o, ho⟩ := (hread nearlyReserved).1.2 hreadable
  obtain ⟨hproperties, hcounts⟩ := (hread nearlyReserved).2 o ho
  have hzero : o.count = 0 := by
    rcases hcounts with ⟨-, hzero⟩ | ⟨hsome, -⟩
    · exact hzero
    · have hnull : nearlyReserved.get? "recordCount" = some .null := by rfl
      rw [hnull] at hsome
      cases hsome
  have hset : o.setProperty "recordCounts" .null =
      some { o with extra := o.extra.insert "recordCounts" .null } :=
    setProperty_eq_some_iff.2 ⟨by decide, rfl⟩
  refine ⟨o, _, ho, hzero, hzero ▸ hproperties, hset, ?_, ?_⟩
  · exact hmade _ ((Made.read ho).set hset).increment
  · intro h
    have hpartition := ((hread _).1.1 h).partition
    rw [Dict.get?_insert, if_pos rfl] at hpartition
    rcases hpartition with hnull | ⟨n, hn, hsome⟩
    · simp [Json.ofNat, Json.ofInt] at hnull
    · simp only [Json.ofNat, Json.ofInt, Option.some.injEq, Json.number.injEq, Number.int.injEq,
        Int.natCast_inj] at hsome
      omega

end Offset

end ObjectFeed
