/-!
# Dictionaries with text keys

A dictionary is a list of members in strictly increasing key order, so two dictionaries with
the same look-ups are equal.

* `Members.insert`, `Members.erase`, `Members.get?`: the operations on plain lists, which JSON
  objects use too; `Members.Sorted` is the order that they keep.
* `Dict`: the lists that are sorted.
* `get?_insert`, `get?_erase`, `get?_merge`: each operation in terms of look-up.
* `Dict.ext_get?`: **look-ups determine a dictionary**.
-/

namespace ObjectFeed

/-- Keys with values, in the order in which they are listed. -/
abbrev Members (α : Type) := List (String × α)

namespace Members

variable {α : Type}

/-- The value of the first member with the key. -/
def get? (k : String) : Members α → Option α
  | [] => none
  | (l, x) :: ms => if k = l then some x else get? k ms

/-- Sets the value of a key, at its place in the order. -/
def insert (k : String) (x : α) : Members α → Members α
  | [] => [(k, x)]
  | (l, y) :: ms =>
    if k < l then (k, x) :: (l, y) :: ms
    else if k = l then (k, x) :: ms
    else (l, y) :: insert k x ms

/-- Removes every member with the key. -/
def erase (k : String) (ms : Members α) : Members α := ms.filter fun m => m.1 ≠ k

/-- The keys increase strictly. -/
def Sorted (ms : Members α) : Prop := ms.Pairwise fun a b => a.1 < b.1

instance (ms : Members α) : Decidable ms.Sorted := by unfold Sorted; infer_instance

/-- The members in key order; of several with one key the last one stays. -/
def ofList (ms : Members α) : Members α := ms.foldl (fun acc m => acc.insert m.1 m.2) []

theorem mem_insert {k : String} {x : α} {ms : Members α} {m : String × α}
    (h : m ∈ ms.insert k x) : m = (k, x) ∨ m ∈ ms := by
  induction ms with
  | nil => simpa [insert] using h
  | cons b ms ih =>
    obtain ⟨l, y⟩ := b
    simp only [insert] at h
    split at h
    · simpa using h
    · split at h
      · rcases List.mem_cons.1 h with rfl | h
        · exact .inl rfl
        · exact .inr (List.mem_cons_of_mem _ h)
      · rcases List.mem_cons.1 h with rfl | h
        · exact .inr List.mem_cons_self
        · exact (ih h).imp id (List.mem_cons_of_mem _)

theorem Sorted.insert {ms : Members α} (h : ms.Sorted) (k : String) (x : α) :
    (ms.insert k x).Sorted := by
  induction ms with
  | nil => simp [Members.insert, Sorted]
  | cons b ms ih =>
    obtain ⟨l, y⟩ := b
    obtain ⟨hl, hms⟩ := List.pairwise_cons.1 h
    simp only [Members.insert]
    split
    next hkl =>
      refine List.pairwise_cons.2 ⟨fun m hm => ?_, h⟩
      rcases List.mem_cons.1 hm with rfl | hm
      · exact hkl
      · exact String.lt_trans hkl (hl m hm)
    next hkl =>
      split
      next e => subst e; exact List.pairwise_cons.2 ⟨hl, hms⟩
      next hne =>
        refine List.pairwise_cons.2 ⟨fun m hm => ?_, ih hms⟩
        rcases mem_insert hm with rfl | hm
        · refine Classical.byContradiction fun hlk => hne ?_
          exact String.le_antisymm (String.not_lt.1 hlk) (String.not_lt.1 hkl)
        · exact hl m hm

theorem Sorted.erase {ms : Members α} (h : ms.Sorted) (k : String) : (ms.erase k).Sorted :=
  h.sublist List.filter_sublist

theorem sorted_ofList (ms : Members α) : (ofList ms).Sorted := by
  suffices h : ∀ acc : Members α, acc.Sorted →
      (ms.foldl (fun acc m => acc.insert m.1 m.2) acc).Sorted from h [] List.Pairwise.nil
  induction ms with
  | nil => exact fun _ h => h
  | cons m ms ih => exact fun acc h => ih _ (h.insert m.1 m.2)

theorem get?_insert (ms : Members α) (k l : String) (x : α) :
    (ms.insert k x).get? l = if l = k then some x else ms.get? l := by
  induction ms with
  | nil => simp [insert, get?]
  | cons b ms ih =>
    obtain ⟨j, y⟩ := b
    simp only [insert]
    split
    · simp [get?]
    · split
      next e => subst e; by_cases h : l = k <;> simp [get?, h]
      next hkj =>
        by_cases h : l = j
        · subst h; simp [get?, Ne.symm hkj]
        · simp [get?, h, ih]

theorem get?_erase (ms : Members α) (k l : String) :
    (ms.erase k).get? l = if l = k then none else ms.get? l := by
  induction ms with
  | nil => simp [erase, get?]
  | cons b ms ih =>
    obtain ⟨j, y⟩ := b
    by_cases hj : j = k
    · subst hj
      have : erase j ((j, y) :: ms) = erase j ms := by simp [erase]
      rw [this, ih]
      by_cases h : l = j <;> simp [get?, h]
    · have : erase k ((j, y) :: ms) = (j, y) :: erase k ms := by simp [erase, hj]
      rw [this]
      by_cases h : l = j
      · subst h; simp [get?, hj]
      · simp [get?, h, ih]

theorem get?_eq_none_of_forall_ne {ms : Members α} {k : String} (h : ∀ m ∈ ms, m.1 ≠ k) :
    ms.get? k = none := by
  induction ms with
  | nil => rfl
  | cons b ms ih =>
    have hb : k ≠ b.1 := fun e => h b List.mem_cons_self e.symm
    simp only [get?, hb, if_false]
    exact ih fun m hm => h m (List.mem_cons_of_mem _ hm)

theorem Sorted.ext {ms ns : Members α} (hm : ms.Sorted) (hn : ns.Sorted)
    (h : ∀ k, ms.get? k = ns.get? k) : ms = ns := by
  have small {k : String} {x : α} {ms : Members α} (hm : Sorted ((k, x) :: ms)) {l : String}
      (hl : l < k) : get? l ((k, x) :: ms) = none := by
    refine get?_eq_none_of_forall_ne fun m hmem e => ?_
    rcases List.mem_cons.1 hmem with rfl | hmem
    · exact String.lt_irrefl _ (e ▸ hl)
    · exact String.lt_irrefl _ (String.lt_trans hl (e ▸ (List.pairwise_cons.1 hm).1 m hmem))
  induction ms generalizing ns with
  | nil =>
    cases ns with
    | nil => rfl
    | cons b ns => have := h b.1; simp [get?] at this
  | cons a ms ih =>
    obtain ⟨k, x⟩ := a
    cases ns with
    | nil => have := h k; simp [get?] at this
    | cons b ns =>
      obtain ⟨l, y⟩ := b
      have hk : get? k ((l, y) :: ns) = some x := by simpa [get?] using (h k).symm
      have hl : get? l ((k, x) :: ms) = some y := by simpa [get?] using h l
      have hkl : k = l := by
        refine String.le_antisymm (String.not_lt.1 fun hlt => ?_) (String.not_lt.1 fun hlt => ?_)
        · simp [small hm hlt] at hl
        · simp [small hn hlt] at hk
      subst hkl
      obtain rfl : x = y := by simpa [get?] using hl
      refine congrArg _ (ih (List.pairwise_cons.1 hm).2 (List.pairwise_cons.1 hn).2 fun j => ?_)
      by_cases hj : j = k
      · subst hj
        rw [get?_eq_none_of_forall_ne fun m hmem e =>
            String.lt_irrefl _ (e ▸ (List.pairwise_cons.1 hm).1 m hmem),
          get?_eq_none_of_forall_ne fun m hmem e =>
            String.lt_irrefl _ (e ▸ (List.pairwise_cons.1 hn).1 m hmem)]
      · simpa [get?, hj] using h j

end Members

/-- A finite map from texts. -/
structure Dict (α : Type) where
  members : Members α
  sorted : members.Sorted

namespace Dict

variable {α : Type}

instance : EmptyCollection (Dict α) := ⟨⟨[], List.Pairwise.nil⟩⟩

instance : Inhabited (Dict α) := ⟨∅⟩

/-- The value of a key. -/
def get? (d : Dict α) (k : String) : Option α := d.members.get? k

/-- Sets the value of a key. -/
def insert (d : Dict α) (k : String) (x : α) : Dict α := ⟨d.members.insert k x, d.sorted.insert k x⟩

/-- Removes a key. -/
def erase (d : Dict α) (k : String) : Dict α := ⟨d.members.erase k, d.sorted.erase k⟩

/-- The dictionary of the members; of several with one key the last one counts. -/
def ofList (ms : Members α) : Dict α := ⟨.ofList ms, Members.sorted_ofList ms⟩

/-- All members of both; where both have a key the value of `e` counts. -/
def merge (d e : Dict α) : Dict α := e.members.foldl (fun acc m => acc.insert m.1 m.2) d

/-- Nothing is in the dictionary. -/
def isEmpty (d : Dict α) : Bool := d.members.isEmpty

/-- The keys, in increasing order. -/
def keys (d : Dict α) : List String := d.members.map (·.1)

/-- The key has a value. -/
def contains (d : Dict α) (k : String) : Bool := (d.get? k).isSome

@[ext] theorem ext {d e : Dict α} (h : d.members = e.members) : d = e := by
  cases d; cases e; cases h; rfl

/-- **Look-ups determine a dictionary.** -/
theorem ext_get? {d e : Dict α} (h : ∀ k, d.get? k = e.get? k) : d = e :=
  ext (d.sorted.ext e.sorted h)

@[simp] theorem get?_empty (k : String) : (∅ : Dict α).get? k = none := rfl

@[simp] theorem get?_insert (d : Dict α) (k l : String) (x : α) :
    (d.insert k x).get? l = if l = k then some x else d.get? l := Members.get?_insert ..

@[simp] theorem get?_erase (d : Dict α) (k l : String) :
    (d.erase k).get? l = if l = k then none else d.get? l := Members.get?_erase ..

theorem get?_merge (d e : Dict α) (k : String) : (d.merge e).get? k = (e.get? k).or (d.get? k) := by
  suffices h : ∀ (ms : Members α), ms.Sorted → ∀ d : Dict α,
      (ms.foldl (fun acc m => acc.insert m.1 m.2) d).get? k =
        (Members.get? k ms).or (d.get? k) from
    h e.members e.sorted d
  intro ms
  induction ms with
  | nil => intro _ d; simp [Members.get?]
  | cons b ms ih =>
    intro hs d
    obtain ⟨l, x⟩ := b
    rw [List.foldl_cons, ih (List.pairwise_cons.1 hs).2]
    by_cases h : k = l
    · subst h
      have : Members.get? k ms = none := Members.get?_eq_none_of_forall_ne fun m hm e =>
        String.lt_irrefl _ (e ▸ (List.pairwise_cons.1 hs).1 m hm)
      simp [Members.get?, this]
    · simp [Members.get?, h]

end Dict

end ObjectFeed
