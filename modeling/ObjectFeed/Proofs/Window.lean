import ObjectFeed.Listing
import ObjectFeed.Store.Memory

/-!
# What a listing still delivers

The objects that a listing has yet to deliver are those with keys after the last one it
delivered, whatever the pages in which they come.

* `Members.get?_of_mem`: a sorted list of members holds what it lists.
* `MemoryObjects.matching_of_append`: the objects after one of them are those behind it.
* `Listing.Covers`: **the objects in the buffer and those of later pages are all after a key.**
* `Lister.covers_start`, `Listing.Covers.pop`, `Listing.Covers.accept`: beginning, delivery and
  request keep that.
-/

namespace ObjectFeed

theorem Members.get?_of_mem {α : Type} {ms : Members α} (h : ms.Sorted) {m : String × α}
    (hm : m ∈ ms) : ms.get? m.1 = some m.2 := by
  induction ms with
  | nil => simp at hm
  | cons b ms ih =>
    obtain ⟨hb, hms⟩ := List.pairwise_cons.1 h
    rcases List.mem_cons.1 hm with rfl | hm
    · simp [get?]
    · have hne : m.1 ≠ b.1 := fun e => String.lt_irrefl _ (e ▸ hb m hm)
      simp only [get?, hne, if_false]
      exact ih hms hm

theorem Members.length_erase {α : Type} {ms : Members α} (h : ms.Sorted) {k : String} {x : α}
    (hk : ms.get? k = some x) : (ms.erase k).length + 1 = ms.length := by
  induction ms with
  | nil => simp [get?] at hk
  | cons b ms ih =>
    obtain ⟨l, y⟩ := b
    obtain ⟨hb, hms⟩ := List.pairwise_cons.1 h
    simp only [get?] at hk
    by_cases hkl : k = l
    · subst hkl
      have hall : erase k ms = ms :=
        List.filter_eq_self.2 fun m hm => by
          have hlt : k < m.1 := hb m hm
          have hne : m.1 ≠ k := fun e => String.lt_irrefl _ (e ▸ hlt)
          simp [hne]
      have hself : erase k ((k, y) :: ms) = erase k ms := by simp [erase]
      rw [hself, hall, List.length_cons]
    · rw [if_neg hkl] at hk
      have hstep : erase k ((l, y) :: ms) = (l, y) :: erase k ms := by
        simp [erase, Ne.symm hkl]
      rw [hstep, List.length_cons, List.length_cons, ih hms hk]

namespace MemoryObjects

theorem mem_matching {objects : Dict Body} {keyPrefix after : Option String} {s : Summary}
    (h : s ∈ matching objects keyPrefix after) :
    startsWith keyPrefix s.key = true ∧ isAfter after s.key = true ∧
      ∃ body, objects.get? s.key = some body ∧ s.size = body.size := by
  obtain ⟨m, hm, rfl⟩ := List.mem_map.1 h
  obtain ⟨hmem, hp⟩ := List.mem_filter.1 hm
  obtain ⟨hstart, hafter⟩ := Bool.and_eq_true_iff.1 hp
  exact ⟨hstart, hafter, m.2, Members.get?_of_mem objects.sorted hmem, rfl⟩

theorem isAfter_trans {after : Option String} {k l : String} (hk : isAfter after k = true)
    (hl : isAfter (some k) l = true) : isAfter after l = true := by
  cases after with
  | none => rfl
  | some a =>
    simp only [isAfter, decide_eq_true_eq] at hk hl ⊢
    exact String.lt_trans hk hl

/-- The objects of a listing are in key order. -/
theorem pairwise_matching (objects : Dict Body) (keyPrefix after : Option String) :
    (matching objects keyPrefix after).Pairwise fun s t => s.key < t.key :=
  List.pairwise_map.2 (objects.sorted.sublist List.filter_sublist)

/-- The objects after the key `k` are among the objects after an earlier key. -/
theorem matching_filter {objects : Dict Body} {keyPrefix after : Option String} {k : String}
    (h : isAfter after k = true) :
    matching objects keyPrefix (some k) =
      (matching objects keyPrefix after).filter fun s => isAfter (some k) s.key := by
  unfold matching
  rw [List.filter_map, List.filter_filter]
  congr 1
  refine List.filter_congr fun m _ => ?_
  by_cases hm : isAfter (some k) m.1 = true
  · simp [hm, isAfter_trans h hm]
  · simp [hm]

/-- **The objects after one of a listing's objects are those behind it.** -/
theorem matching_of_append {objects : Dict Body} {keyPrefix after : Option String}
    (front : List Summary) {rest : List Summary} {s : Summary}
    (h : matching objects keyPrefix after = front ++ s :: rest) :
    matching objects keyPrefix (some s.key) = rest := by
  have hmem : s ∈ matching objects keyPrefix after := by simp [h]
  have hs := (mem_matching hmem).2.1
  have hsorted := pairwise_matching objects keyPrefix after
  rw [h] at hsorted
  obtain ⟨-, htail, hcross⟩ := List.pairwise_append.1 hsorted
  obtain ⟨hbehind, -⟩ := List.pairwise_cons.1 htail
  -- the keys ascend: of those in front none is after the key, and all those behind it are
  have hfront : front.filter (fun t => isAfter (some s.key) t.key) = [] := by
    rw [List.filter_eq_nil_iff]
    intro t ht
    have hlt := hcross t ht s List.mem_cons_self
    simp only [isAfter, decide_eq_true_eq]
    exact fun hlt' => String.lt_irrefl _ (String.lt_trans hlt hlt')
  have hrest : rest.filter (fun t => isAfter (some s.key) t.key) = rest := by
    rw [List.filter_eq_self]
    intro t ht
    simpa only [isAfter, decide_eq_true_eq] using hbehind t ht
  have hself : isAfter (some s.key) s.key = false := by
    simp only [isAfter, decide_eq_false_iff_not]
    exact String.lt_irrefl _
  rw [matching_filter hs, h, List.filter_append, hfront, List.nil_append, List.filter_cons,
    if_neg (by simp [hself]), hrest]

theorem keyOfToken?_tokenMark (key : String) : keyOfToken? (tokenMark ++ key) = some key := by
  unfold keyOfToken?
  have hp : tokenMark.toList.isPrefixOf (tokenMark ++ key).toList = true := by
    rw [List.isPrefixOf_iff_prefix, String.toList_append]
    exact List.prefix_append _ _
  have hlen : tokenMark.length = tokenMark.toList.length := String.length_toList.symm
  rw [if_pos hp, hlen, String.toList_append, List.drop_left, String.ofList_toList]

end MemoryObjects

open MemoryObjects (matching page keyOfToken? tokenMark)

/-- The request asks for the keys after a given one, by name or by token. -/
def ListRequest.StartsAfter (r : ListRequest) (after : Option String) : Prop :=
  (r.token = none ∧ r.startAfter = after) ∨
    ∃ token key, r.token = some token ∧ r.startAfter = none ∧ keyOfToken? token = some key ∧
      after = some key

theorem MemoryObjects.answer_eq {s : MemoryObjects} {r : ListRequest} {after : Option String}
    {objects : Dict Body} (hr : r.StartsAfter after) (hb : s.buckets.get? r.bucket = some objects) :
    s.answer r = .ok (page r.maxKeys (matching objects r.keyPrefix after)) := by
  unfold answer
  rcases hr with ⟨ht, hs⟩ | ⟨token, key, ht, hs, hk, ha⟩
  · simp [ht, hs, hb, pure, Except.pure, bind, Except.bind]
  · simp [ht, hs, hb, hk, ha, pure, Except.pure, bind, Except.bind]

namespace Listing

/-- The objects that are yet to be delivered are those of the bucket after a key. -/
structure Covers (l : Listing) (lister : Lister) (objects : Dict Body) (after : Option String) :
    Prop where
  bucket : l.request.bucket = lister.bucket
  keyPrefix : l.request.keyPrefix = lister.keyPrefix
  maxKeys : l.request.maxKeys = lister.pageSize
  done : l.done = true → matching objects lister.keyPrefix after = l.buffer
  more : l.done = false → ∃ next, l.request.StartsAfter next ∧
    matching objects lister.keyPrefix after =
      l.buffer ++ matching objects lister.keyPrefix next

variable {l : Listing} {lister : Lister} {objects : Dict Body} {after : Option String}

/-- What is in the buffer is yet to be delivered. -/
theorem Covers.matching_eq (h : l.Covers lister objects after) :
    ∃ rest, matching objects lister.keyPrefix after = l.buffer ++ rest := by
  cases hd : l.done with
  | true => exact ⟨[], by rw [h.done hd, List.append_nil]⟩
  | false =>
    obtain ⟨next, -, hm⟩ := h.more hd
    exact ⟨_, hm⟩

/-- After the delivery of an object the listing covers the keys after it. -/
theorem Covers.pop {s : Summary} {buffer : List Summary} (h : l.Covers lister objects after)
    (hb : l.buffer = s :: buffer) : { l with buffer }.Covers lister objects (some s.key) where
  bucket := h.bucket
  keyPrefix := h.keyPrefix
  maxKeys := h.maxKeys
  done hd := by
    have hm := h.done hd
    rw [hb] at hm
    exact MemoryObjects.matching_of_append [] hm
  more hd := by
    obtain ⟨next, hr, hm⟩ := h.more hd
    rw [hb] at hm
    exact ⟨next, hr, MemoryObjects.matching_of_append [] hm⟩

/-- A page and the keys after its token are all that was asked for. -/
theorem page_cases (maxKeys : Nat) (objects : Dict Body) (keyPrefix next : Option String) :
    let found := matching objects keyPrefix next
    let p := page maxKeys found
    (p.next = none ∧ p.objects = found) ∨
      ∃ s : Summary, p.next = some (tokenMark ++ s.key) ∧ p.objects.getLast? = some s ∧
        found = p.objects ++ matching objects keyPrefix (some s.key) := by
  intro found p
  obtain ⟨n, hpos, hobjects, hnext⟩ : ∃ n, 0 < n ∧ p.objects = found.take n ∧
      p.next = if n < found.length then
        (found.take n).getLast?.map fun s => tokenMark ++ s.key else none := by
    refine ⟨if maxKeys = 0 then MemoryObjects.defaultPageSize else maxKeys, ?_, rfl, rfl⟩
    split
    · decide
    · omega
  by_cases hlt : n < found.length
  · -- the token is the last key of the page
    right
    have hne : found.take n ≠ [] := by
      intro h
      have := congrArg List.length h
      rw [List.length_take, List.length_nil] at this
      omega
    obtain ⟨s, hs⟩ : ∃ s, (found.take n).getLast? = some s :=
      ⟨_, List.getLast?_eq_some_getLast hne⟩
    obtain ⟨front, hfront⟩ := List.getLast?_eq_some_iff.1 hs
    have hsplit : found = front ++ s :: found.drop n := by
      calc found = found.take n ++ found.drop n := (List.take_append_drop n found).symm
        _ = front ++ s :: found.drop n := by rw [hfront]; simp
    refine ⟨s, ?_, ?_, ?_⟩
    · rw [hnext, if_pos hlt, hs, Option.map_some]
    · rw [hobjects]
      exact hs
    · rw [MemoryObjects.matching_of_append front hsplit, hobjects, List.take_append_drop]
  · left
    refine ⟨?_, ?_⟩
    · rw [hnext, if_neg hlt]
    · rw [hobjects, List.take_of_length_le (by omega)]

/-- After a page the listing covers what it did before the request, and it has an object to
deliver or is over. -/
theorem Covers.accept {next : Option String} (h : l.Covers lister objects after)
    (hb : l.buffer = []) (hd : l.done = false)
    (hm : matching objects lister.keyPrefix after = matching objects lister.keyPrefix next) :
    let p := page l.request.maxKeys (matching objects l.request.keyPrefix next)
    (l.accept p).Covers lister objects after ∧
      ((l.accept p).buffer ≠ [] ∨ (l.accept p).done = true) := by
  rw [h.keyPrefix]
  intro p
  rcases page_cases l.request.maxKeys objects lister.keyPrefix next with
    ⟨hnone, hall⟩ | ⟨s, hsome, hlast, hall⟩
  · have hl : l.accept p = ⟨{ l.request with token := none }, p.objects, true⟩ := by
      simp only [Listing.accept, p, hnone, hb, List.nil_append]
    rw [hl]
    refine ⟨⟨h.bucket, h.keyPrefix, h.maxKeys, fun _ => hm.trans hall.symm, ?_⟩, .inr rfl⟩
    intro hd'
    simp at hd'
  · have hl : l.accept p = ⟨{ l.request with
        startAfter := none, token := some (tokenMark ++ s.key) }, p.objects, false⟩ := by
      simp only [Listing.accept, p, hsome, hb, hd, List.nil_append]
    rw [hl]
    have hne : p.objects ≠ [] := by
      intro hnil
      rw [hnil] at hlast
      simp at hlast
    refine ⟨⟨h.bucket, h.keyPrefix, h.maxKeys, ?_, ?_⟩, .inl hne⟩
    · intro hd'
      simp at hd'
    · intro _
      exact ⟨some s.key, .inr ⟨_, _, rfl, rfl, MemoryObjects.keyOfToken?_tokenMark s.key, rfl⟩,
        hm.trans hall⟩

end Listing

/-- A listing that begins covers the keys that it is to start after. -/
theorem Lister.covers_start (lister : Lister) (objects : Dict Body)
    (after : Option String) : (lister.start after).Covers lister objects after where
  bucket := rfl
  keyPrefix := rfl
  maxKeys := rfl
  done h := by simp [Lister.start] at h
  more _ := ⟨after, .inl ⟨rfl, rfl⟩, by simp [Lister.start]⟩

end ObjectFeed
