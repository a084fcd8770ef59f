import ObjectFeed.Offset.Cache
import ObjectFeed.Store.Memory

/-!
# The persisted form of progress

An identity and an offset are determined by the properties under which they are persisted, and
identities compare by value as they do by equality.

* `OffsetKey.get?_properties`, `Offset.get?_properties`: the properties by name.
* `OffsetKey.same_properties`: only the properties of an identity are the same as them.
* `Offset.ofProperties_properties`: **an offset is read back from its properties.**
* `Offset.ofProperties_identity`: an identity alone is an offset without records.
* `MemoryOffsets.stored?_put`: what a store holds after a write.
-/

namespace ObjectFeed

/-- All names of the first dictionary are names of the second, so its values do not count. -/
theorem Dict.merge_eq_right {α : Type} {d e : Dict α}
    (h : ∀ l, e.get? l = none → d.get? l = none) : d.merge e = e := by
  refine Dict.ext_get? fun l => ?_
  rw [Dict.get?_merge]
  cases he : e.get? l with
  | some x => simp
  | none => simp [h l he]

namespace OffsetKey

theorem members_properties (k : OffsetKey) :
    k.properties.members =
      [("bucket", .string k.bucket), ("objectKey", .string k.objectKey),
        ("partition", partitionJson k.partition), ("topic", .string k.topic)] := by
  have h1 : ¬("topic" : String) < "bucket" := by decide
  have h2 : ¬("partition" : String) < "bucket" := by decide
  have h3 : ("partition" : String) < "topic" := by decide
  have h4 : ¬("objectKey" : String) < "bucket" := by decide
  have h5 : ("objectKey" : String) < "partition" := by decide
  simp [properties, Dict.ofList, Members.ofList, Members.insert, h1, h2, h3, h4, h5]

/-- The properties of an identity by name. -/
theorem get?_properties (k : OffsetKey) (name : String) :
    k.properties.get? name =
      if name = "bucket" then some (.string k.bucket)
      else if name = "objectKey" then some (.string k.objectKey)
      else if name = "partition" then some (partitionJson k.partition)
      else if name = "topic" then some (.string k.topic)
      else none := by
  rw [Dict.get?, members_properties]
  simp only [Members.get?]

theorem get?_properties_of_notMem {k : OffsetKey} {name : String} (h : name ∉ ownedNames) :
    k.properties.get? name = none := by
  simp only [ownedNames, List.mem_cons, List.not_mem_nil, or_false, not_or] at h
  rw [get?_properties, if_neg h.1, if_neg h.2.1, if_neg h.2.2.2.1, if_neg h.2.2.1]

theorem partitionJson_injective {p q : Option UInt32} (h : partitionJson p = partitionJson q) :
    p = q := by
  match p, q with
  | none, none => rfl
  | none, some n => simp [partitionJson, Json.ofOption, Json.ofNat, Json.ofInt] at h
  | some m, none => simp [partitionJson, Json.ofOption, Json.ofNat, Json.ofInt] at h
  | some m, some n =>
    simp only [partitionJson, Json.ofOption, Json.ofNat, Json.ofInt, Json.number.injEq,
      Number.int.injEq, Int.natCast_inj] at h
    rw [UInt32.toNat_inj.1 h]

/-- Identities are determined by their properties. -/
theorem properties_injective {k l : OffsetKey} (h : k.properties = l.properties) : k = l := by
  have hm := congrArg Dict.members h
  rw [members_properties, members_properties] at hm
  simp only [List.cons.injEq, Prod.mk.injEq, Json.string.injEq, true_and, and_true] at hm
  obtain ⟨hb, ho, hp, ht⟩ := hm
  cases k
  cases l
  simp only [mk.injEq]
  exact ⟨hb, ht, partitionJson_injective hp, ho⟩

end OffsetKey

namespace Json

/-- No other value is the same as this one. -/
def Exact (v : Json) : Prop := ∀ x : Json, same x v = true → x = v

theorem exact_null : Exact .null := by
  intro x h
  cases x <;> simp_all [same]

theorem exact_string (s : String) : Exact (.string s) := by
  intro x h
  cases x <;> simp_all [same]

theorem exact_ofNat (n : Nat) : Exact (.ofNat n) := by
  intro x h
  cases x with
  | number m => cases m <;> simp_all [same, ofNat, ofInt, Number.same]
  | _ => simp [same, ofNat, ofInt] at h

theorem exact_partitionJson (p : Option UInt32) : Exact (OffsetKey.partitionJson p) := by
  cases p with
  | none => exact exact_null
  | some n => exact exact_ofNat _

theorem eq_of_sameMembers {ms ns : Members Json} (hn : ∀ m ∈ ns, Exact m.2)
    (h : sameMembers ms ns = true) : ms = ns := by
  induction ns generalizing ms with
  | nil =>
    cases ms with
    | nil => rfl
    | cons m ms => simp [sameMembers] at h
  | cons n ns ih =>
    cases ms with
    | nil => simp [sameMembers] at h
    | cons m ms =>
      simp only [sameMembers, Bool.and_eq_true, beq_iff_eq] at h
      obtain ⟨⟨hk, hv⟩, hms⟩ := h
      have hval := hn n List.mem_cons_self _ hv
      rw [ih (fun m hm => hn m (List.mem_cons_of_mem _ hm)) hms]
      exact congrArg (· :: ns) (Prod.ext hk hval)

end Json

/-- **Only the properties of an identity are the same as them.** -/
theorem OffsetKey.same_properties (k : OffsetKey) (p : Properties) :
    p.same k.properties = true ↔ p = k.properties := by
  have hexact : ∀ m ∈ k.properties.members, Json.Exact m.2 := by
    rw [members_properties]
    intro m hm
    simp only [List.mem_cons, List.not_mem_nil, or_false] at hm
    rcases hm with rfl | rfl | rfl | rfl
    · exact Json.exact_string _
    · exact Json.exact_string _
    · exact Json.exact_partitionJson _
    · exact Json.exact_string _
  constructor
  · intro h
    exact Dict.ext (Json.eq_of_sameMembers hexact h)
  · rintro rfl
    rw [Properties.same, members_properties]
    cases k.partition <;>
      simp [Json.sameMembers, Json.same, partitionJson, Json.ofOption, Json.ofNat, Json.ofInt,
        Number.same]

namespace Offset

/-- The further properties have none of the names that an offset owns. -/
def Separate (o : Offset) : Prop := ∀ name ∈ ownedNames, o.extra.get? name = none

theorem get?_unowned (p : Properties) (name : String) :
    (unowned p).get? name = if name ∈ ownedNames then none else p.get? name := by
  suffices h : ∀ (names : List String) (p : Properties),
      (names.foldl Dict.erase p).get? name = if name ∈ names then none else p.get? name from
    h ownedNames p
  intro names
  induction names with
  | nil => simp
  | cons n names ih =>
    intro p
    rw [List.foldl_cons, ih, Dict.get?_erase]
    by_cases h : name = n <;> by_cases hm : name ∈ names <;> simp [h, hm]

/-- The properties of an offset by name. -/
theorem get?_properties (o : Offset) (name : String) :
    o.properties.get? name =
      if name = "recordCount" then some (.ofNat o.count)
      else (o.key.properties.get? name).or (o.extra.get? name) := by
  rw [properties, Dict.get?_insert, Dict.get?_merge]

/-- What `ofProperties` succeeds on, and what it makes of it. -/
theorem ofProperties_eq_ok {p : Properties} {o : Offset} (h : ofProperties p = .ok o) :
    textAt p "bucket" = .ok o.key.bucket ∧ textAt p "topic" = .ok o.key.topic ∧
      textAt p "objectKey" = .ok o.key.objectKey ∧ partitionOf p = .ok o.key.partition ∧
      countOf p = .ok o.count ∧ o.extra = unowned p := by
  unfold ofProperties at h
  cases hb : textAt p "bucket" with
  | error e => rw [hb] at h; simp [bind, Except.bind] at h
  | ok bucket =>
  cases ht : textAt p "topic" with
  | error e => rw [hb, ht] at h; simp [bind, Except.bind] at h
  | ok topic =>
  cases ho : textAt p "objectKey" with
  | error e => rw [hb, ht, ho] at h; simp [bind, Except.bind] at h
  | ok objectKey =>
  cases hp : partitionOf p with
  | error e => rw [hb, ht, ho, hp] at h; simp [bind, Except.bind] at h
  | ok partition =>
  cases hc : countOf p with
  | error e => rw [hb, ht, ho, hp, hc] at h; simp [bind, Except.bind] at h
  | ok count =>
    rw [hb, ht, ho, hp, hc] at h
    simp only [bind, Except.bind, pure, Except.pure, Except.ok.injEq] at h
    subst h
    exact ⟨rfl, rfl, rfl, rfl, rfl, rfl⟩

theorem separate_of_ofProperties {p : Properties} {o : Offset} (h : ofProperties p = .ok o) :
    o.Separate := by
  intro name hn
  rw [(ofProperties_eq_ok h).2.2.2.2.2, get?_unowned, if_pos hn]

theorem natural?_ofNat {bits n : Nat} (h : n < pow2 bits) :
    (Json.ofNat n).natural? bits = some n := by
  have hp : (n : Int) < pow2 bits := by
    omega
  simp only [Json.natural?, Json.ofNat, Json.ofInt]
  rw [if_pos ⟨Int.natCast_nonneg n, hp⟩, Int.toNat_natCast]

theorem natural?_lt {v : Json} {bits n : Nat} (h : v.natural? bits = some n) : n < pow2 bits := by
  unfold Json.natural? at h
  split at h
  · split at h
    · rename_i hp
      rw [Option.some.injEq] at h
      omega
    · simp at h
  · simp at h

/-- Counts that are read are counts of 64 bits. -/
theorem count_lt_of_ofProperties {p : Properties} {o : Offset} (h : ofProperties p = .ok o) :
    o.count < pow2 64 := by
  have hc := (ofProperties_eq_ok h).2.2.2.2.1
  have hzero : 0 < pow2 64 := by decide
  unfold countOf at hc
  split at hc
  · rw [← Except.ok.inj hc]
    exact hzero
  · rw [← Except.ok.inj hc]
    exact hzero
  · split at hc
    · rename_i hn
      rw [← Except.ok.inj hc]
      exact natural?_lt hn
    · simp at hc

theorem partitionOf_natural {p : Properties} {v : Json} {n : Nat}
    (h : p.get? "partition" = some v) (hn : v.natural? 32 = some n) :
    partitionOf p = .ok (some n.toUInt32) := by
  unfold partitionOf
  rw [h]
  split
  · simp_all
  · simp_all [Json.natural?]
  · simp_all

theorem countOf_natural {p : Properties} {v : Json} {n : Nat}
    (h : p.get? "recordCount" = some v) (hn : v.natural? 64 = some n) : countOf p = .ok n := by
  unfold countOf
  rw [h]
  split
  · simp_all
  · simp_all [Json.natural?]
  · simp_all

theorem eq_of_natural? {bits m n : Nat} (h : (Json.ofNat n).natural? bits = some m) : m = n := by
  simp only [Json.natural?, Json.ofNat, Json.ofInt] at h
  split at h
  · rw [Option.some.injEq, Int.toNat_natCast] at h
    exact h.symm
  · cases h

/-- A count is read as itself, if it is read. -/
theorem eq_of_countOf {p : Properties} {m n : Nat} (h : p.get? "recordCount" = some (.ofNat n))
    (hm : countOf p = .ok m) : m = n := by
  cases hn : (Json.ofNat n).natural? 64 with
  | none =>
    unfold countOf at hm
    rw [h] at hm
    split at hm
    · simp_all
    · simp_all [Json.ofNat, Json.ofInt]
    · simp_all
  | some k =>
    rw [countOf_natural h hn] at hm
    rw [← Except.ok.inj hm]
    exact eq_of_natural? hn

theorem partitionOf_eq_ok {p : Properties} {q : Option UInt32}
    (h : p.get? "partition" = some (OffsetKey.partitionJson q)) : partitionOf p = .ok q := by
  cases q with
  | none =>
    rw [partitionOf, h]
    rfl
  | some n =>
    rw [partitionOf_natural h (natural?_ofNat n.toNat_lt)]
    simp only [Nat.toUInt32, UInt32.ofNat_toNat]

/-- Properties of an identity, a count and further names are an offset. -/
theorem ofProperties_eq {p : Properties} {o : Offset}
    (hkey : ∀ name ∈ ownedNames, name ≠ "recordCount" → p.get? name = o.key.properties.get? name)
    (hcount : countOf p = .ok o.count) (hextra : unowned p = o.extra) :
    ofProperties p = .ok o := by
  have hb : textAt p "bucket" = .ok o.key.bucket := by
    simp [textAt, hkey "bucket" (by decide) (by decide), OffsetKey.get?_properties]
  have ht : textAt p "topic" = .ok o.key.topic := by
    simp [textAt, hkey "topic" (by decide) (by decide), OffsetKey.get?_properties]
  have ho : textAt p "objectKey" = .ok o.key.objectKey := by
    simp [textAt, hkey "objectKey" (by decide) (by decide), OffsetKey.get?_properties]
  have hp : partitionOf p = .ok o.key.partition := by
    refine partitionOf_eq_ok ?_
    rw [hkey "partition" (by decide) (by decide), OffsetKey.get?_properties]
    simp
  unfold ofProperties
  rw [hb, ht, ho, hp, hcount, hextra]
  rfl

theorem unowned_properties {o : Offset} (h : o.Separate) : unowned o.properties = o.extra := by
  refine Dict.ext_get? fun name => ?_
  rw [get?_unowned]
  by_cases hn : name ∈ ownedNames
  · rw [if_pos hn, h name hn]
  · have hc : name ≠ "recordCount" := by
      rintro rfl
      exact hn (by decide)
    rw [if_neg hn, get?_properties, if_neg hc, OffsetKey.get?_properties_of_notMem hn,
      Option.none_or]

/-- **An offset is read back from its properties**, if its count fits 64 bits. -/
theorem ofProperties_properties {o : Offset} (h : o.Separate) (hc : o.count < pow2 64) :
    ofProperties o.properties = .ok o := by
  refine ofProperties_eq ?_ ?_ (unowned_properties h)
  · intro name hn hne
    rw [get?_properties, if_neg hne, h name hn, Option.or_none]
  · refine countOf_natural ?_ (natural?_ofNat hc)
    rw [get?_properties, if_pos rfl]

/-- An offset that was read from properties is read back from its own. -/
theorem ofProperties_again {p : Properties} {o : Offset} (h : ofProperties p = .ok o) :
    ofProperties o.properties = .ok o :=
  ofProperties_properties (separate_of_ofProperties h) (count_lt_of_ofProperties h)

/-- An identity alone is an offset without records. -/
theorem ofProperties_identity (k : OffsetKey) : ofProperties k.properties = .ok { key := k } := by
  refine ofProperties_eq (fun _ _ _ => rfl) ?_ ?_
  · simp [countOf, OffsetKey.get?_properties]
  · refine Dict.ext_get? fun name => ?_
    rw [get?_unowned]
    by_cases hn : name ∈ ownedNames
    · rw [if_pos hn, Dict.get?_empty]
    · rw [if_neg hn, OffsetKey.get?_properties_of_notMem hn, Dict.get?_empty]

/-- The properties of an offset replace those from which it was read, and any earlier ones. -/
theorem merge_properties {p : Properties} {o : Offset} (n : Nat) (h : ofProperties p = .ok o) :
    p.merge { o with count := n }.properties = { o with count := n }.properties := by
  refine Dict.merge_eq_right fun name hn => ?_
  rw [get?_properties] at hn
  split at hn
  · simp at hn
  · rw [Option.or_eq_none_iff] at hn
    have hmem : name ∉ ownedNames := by
      intro hmem
      rw [OffsetKey.get?_properties] at hn
      simp only [ownedNames, List.mem_cons, List.not_mem_nil, or_false] at hmem
      rcases hmem with rfl | rfl | rfl | rfl | rfl <;> simp_all
    have he := hn.2
    simp only [(ofProperties_eq_ok h).2.2.2.2.2, get?_unowned, if_neg hmem] at he
    exact he

theorem merge_properties_self (o : Offset) (m n : Nat) :
    { o with count := m }.properties.merge { o with count := n }.properties =
      { o with count := n }.properties := by
  refine Dict.merge_eq_right fun name hn => ?_
  rw [get?_properties] at hn ⊢
  split at hn
  · simp at hn
  · rw [if_neg ‹_›]
    exact hn

end Offset

namespace MemoryOffsets

/-- The properties that a store holds under an identity. -/
def stored? (s : MemoryOffsets) (k : OffsetKey) : Option Properties :=
  (s.entries.find? fun e => e.1.same k.properties).map (·.2)

theorem stored?_put (s : MemoryOffsets) (k l : OffsetKey) (p : Properties) :
    (s.put k.properties p).stored? l = if l = k then some p else s.stored? l := by
  unfold stored? put
  rw [List.find?_append, List.find?_filter]
  by_cases h : l = k
  · subst h
    have hself : l.properties.same l.properties = true := (l.same_properties _).2 rfl
    -- the new entry takes the place of the one before it
    have hnone : List.find? (fun e : Properties × Properties =>
        decide ((!e.1.same l.properties) = true ∧ e.1.same l.properties = true)) s.entries =
          none := by
      rw [List.find?_eq_none]
      intro e _
      cases e.1.same l.properties <;> simp
    rw [hnone, if_pos rfl]
    simp [hself]
  · have hne : k.properties.same l.properties = false := by
      rw [← Bool.not_eq_true, OffsetKey.same_properties]
      exact fun he => h (OffsetKey.properties_injective he).symm
    -- an entry of another identity is still there
    have hfun : (fun e : Properties × Properties =>
        decide ((!e.1.same k.properties) = true ∧ e.1.same l.properties = true)) =
          fun e => e.1.same l.properties := by
      funext e
      by_cases he : e.1.same l.properties = true
      · have hek : e.1.same k.properties = false := by
          rw [(OffsetKey.same_properties _ _).1 he, ← Bool.not_eq_true, OffsetKey.same_properties]
          exact fun hk => h (OffsetKey.properties_injective hk)
        simp [he, hek]
      · simp [he]
    rw [hfun, if_neg h]
    cases List.find? (fun e : Properties × Properties => e.1.same l.properties) s.entries with
    | none => simp [hne]
    | some e => simp

end MemoryOffsets

end ObjectFeed
