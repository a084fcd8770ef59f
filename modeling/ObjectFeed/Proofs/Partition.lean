import Mathlib.Data.Fintype.Card
import Mathlib.Data.Int.ModEq
import ObjectFeed.Assignment

/-!
# The split of the keys among workers

A worker's place is its number modulo the number of workers, and the owner of a key is the key's
hash modulo the same number. Both are taken upwards from zero, so negative numbers and negative
hashes have a place as well.

* `Assignment.count_resolve`, `Assignment.index_resolve`: count and place of a worker.
* `Assignment.resolve_congr`: workers whose numbers are congruent have the same place.
* `Assignment.owns_iff`: the one worker that owns a key.
* `TaskFilter.accepted_once`: **of workers whose numbers are all different modulo their count, and
  as many as that, exactly one accepts an object** that is not empty and has not failed.
-/

namespace ObjectFeed

namespace Assignment

/-- The worker that owns a key, of a number of workers. -/
def owner {n : Nat} (hn : 0 < n) (key : String) : Fin n :=
  ⟨((keyHash key).toInt % n).toNat, by
    have := Int.emod_lt_of_pos (keyHash key).toInt (Int.natCast_pos.2 hn)
    omega⟩

theorem owns_iff {n : Nat} (hn : 0 < n) (i : Fin n) (key : String) :
    (⟨i, n⟩ : Assignment).owns key = true ↔ owner hn key = i := by
  have hnonneg := Int.emod_nonneg (keyHash key).toInt (Int.natCast_ne_zero.2 (Nat.ne_of_gt hn))
  unfold owns owner
  rw [beq_iff_eq, Fin.ext_iff]
  simp only
  omega

theorem resolve_ofNat {i n : Nat} (hi : i < n) (hn : n < pow2 32) :
    resolve (some (.ofNat i)) (some (.ofNat n)) = ⟨i, n⟩ := by
  have hlimit : pow2 32 = 4294967296 := rfl
  have hin : (Int64.ofNat n).toInt = n := Int64.toInt_ofNat_of_lt (by omega)
  have hii : (Int64.ofNat i).toInt = i := Int64.toInt_ofNat_of_lt (by omega)
  have hpos : (0 : Int) < n := by omega
  have hcount : min (n : Int).toNat (pow2 32 - 1) = n := by omega
  unfold resolve
  simp only [hin, hii, Option.map_some, Option.getD_some, if_pos hpos, hcount]
  rw [Int.emod_eq_of_lt (by omega) (by omega), Int.toNat_natCast]

/-- A single worker owns all keys. -/
theorem owns_resolve_one (taskId : Option Int64) (key : String) :
    (resolve taskId (some 1)).owns key = true := by
  have hcount : (resolve taskId (some 1)).count = 1 := rfl
  have hindex : (resolve taskId (some 1)).index = 0 := by
    have := index_resolve_lt taskId (some 1)
    omega
  rw [owns, hcount, hindex, Int.natCast_one, Int.emod_one]
  rfl

/-- The number of workers is as set, up to the largest number of 32 bits. -/
theorem count_resolve {n : Int64} (hn : 0 < n.toInt) (taskId : Option Int64) :
    (resolve taskId (some n)).count = min n.toInt.toNat (2 ^ 32 - 1) := by
  unfold resolve
  simp only [if_pos hn]
  rfl

/-- The number of workers fits 32 bits, whatever the settings. -/
theorem count_resolve_lt (taskId maxTasks : Option Int64) :
    (resolve taskId maxTasks).count < 2 ^ 32 := by
  have limit : pow2 32 = 2 ^ 32 := rfl
  unfold resolve
  cases maxTasks with
  | none => simp
  | some n => simp only; split <;> omega

/-- The place of a worker is its number modulo the number of workers. -/
theorem index_resolve (id : Int64) (maxTasks : Option Int64) :
    ((resolve (some id) maxTasks).index : Int) =
      id.toInt % (resolve (some id) maxTasks).count := by
  have hpos := count_resolve_pos (some id) maxTasks
  have hle := Int.emod_nonneg id.toInt (Int.natCast_ne_zero.2 (Nat.ne_of_gt hpos))
  exact Int.toNat_of_nonneg hle

/-- Workers whose numbers are congruent have the same place. -/
theorem resolve_congr {a b : Int64} {maxTasks : Option Int64}
    (h : a.toInt ≡ b.toInt [ZMOD (resolve none maxTasks).count]) :
    resolve (some a) maxTasks = resolve (some b) maxTasks := by
  have hindex : (resolve (some a) maxTasks).index = (resolve (some b) maxTasks).index :=
    congrArg Int.toNat h
  unfold resolve at hindex ⊢
  simp only [mk.injEq, and_true]
  exact hindex

end Assignment

/-- As many different places as there are hold each place once. -/
theorem count_eq_one_of_length {n : Nat} {l : List (Fin n)} (hl : l.Nodup)
    (hlength : l.length = n) (i : Fin n) : l.count i = 1 := by
  have hcard : l.toFinset.card = Fintype.card (Fin n) := by
    rw [List.toFinset_card_of_nodup hl, hlength, Fintype.card_fin]
  have hmem : i ∈ l.toFinset := by
    rw [Finset.eq_univ_of_card _ hcard]
    exact Finset.mem_univ i
  exact List.count_eq_one_of_mem hl (List.mem_toFinset.1 hmem)

namespace TaskFilter

variable {n : Int64} {ids : List Int64}

/-- An object that is not empty and has not failed is accepted by the worker at the place of its
owner. -/
theorem accepts_resolve_iff {c : Nat} (hc : 0 < c) {id : Int64}
    (hcount : (Assignment.resolve (some id) (some n)).count = c) {failed : KeySet} {s : Summary}
    (hs : 0 < s.size ∧ failed.contains s.key = false) :
    (TaskFilter.mk (.resolve (some id) (some n)) failed).accepts s = true ↔
      (Assignment.resolve (some id) (some n)).index = Assignment.owner hc s.key := by
  have hlt : (Assignment.resolve (some id) (some n)).index < c := by
    have := Assignment.index_resolve_lt (some id) (some n)
    omega
  have howns := Assignment.owns_iff hc ⟨_, hlt⟩ s.key
  have heta : (⟨(Assignment.resolve (some id) (some n)).index, c⟩ : Assignment) =
      .resolve (some id) (some n) := by
    rw [← hcount]
  simp only [heta, Fin.ext_iff] at howns
  simp only [accepts, hs.1, hs.2, decide_true, Bool.true_and, Bool.not_false, Bool.and_true]
  rw [howns, eq_comm]

/-- Workers with incongruent numbers, as many as they count, have each place once. -/
theorem count_places {c : Nat} (hcount : ∀ id,
    (Assignment.resolve (some id) (some n)).count = c) (hlength : ids.length = c)
    (hids : ids.Pairwise fun a b => ¬ a.toInt ≡ b.toInt [ZMOD c]) (i : Fin c) :
    ids.countP (fun id => (Assignment.resolve (some id) (some n)).index = i) = 1 := by
  let place (id : Int64) : Fin c := ⟨(Assignment.resolve (some id) (some n)).index, by
    have := Assignment.index_resolve_lt (some id) (some n)
    rw [hcount] at this
    exact this⟩
  have hnodup : (ids.map place).Nodup := by
    refine List.pairwise_map.2 (hids.imp fun hab heq => hab ?_)
    have hindex := congrArg (fun i : Fin c => (i : Int)) heq
    simp only [place, Assignment.index_resolve, hcount] at hindex
    exact hindex
  have hone := count_eq_one_of_length hnodup (by rw [List.length_map, hlength]) i
  rw [List.count_eq_countP, List.countP_map] at hone
  rw [← hone]
  refine List.countP_congr fun id _ => ?_
  simp [place, Fin.ext_iff]

/-- **Workers with incongruent numbers, as many as they count, split the objects**: each object that
is not empty and has not failed is accepted by exactly one of them, and any other object by none;
numbers that are congruent make the same filter. Whatever the raw settings, there is a worker, its
place is below the number of workers, and both fit 32 bits. -/
theorem accepted_once :
    (∀ (n : Int64) (c : Nat), 0 < n.toInt → c = min n.toInt.toNat (2 ^ 32 - 1) →
      ∀ failed : KeySet,
        (∀ ids : List Int64, ids.length = c →
          (ids.Pairwise fun a b => ¬ a.toInt ≡ b.toInt [ZMOD c]) → ∀ s : Summary,
          ids.countP (fun id => (TaskFilter.mk (.resolve (some id) (some n)) failed).accepts s) =
            if 0 < s.size ∧ failed.contains s.key = false then 1 else 0) ∧
        ∀ a b : Int64, a.toInt ≡ b.toInt [ZMOD c] →
          TaskFilter.mk (.resolve (some a) (some n)) failed =
            TaskFilter.mk (.resolve (some b) (some n)) failed) ∧
    ∀ taskId maxTasks : Option Int64,
      1 ≤ (Assignment.resolve taskId maxTasks).count ∧
      (Assignment.resolve taskId maxTasks).index < (Assignment.resolve taskId maxTasks).count ∧
      (Assignment.resolve taskId maxTasks).count < 2 ^ 32 := by
  refine ⟨fun n c hn hc failed => ⟨?_, ?_⟩, ?_⟩
  · intro ids hlength hids s
    have hcount : ∀ id, (Assignment.resolve (some id) (some n)).count = c := fun id =>
      (Assignment.count_resolve hn _).trans hc.symm
    have hpos : 0 < c := by omega
    split
    · rename_i hs
      rw [← count_places hcount hlength hids (Assignment.owner hpos s.key)]
      refine List.countP_congr fun id _ => ?_
      rw [accepts_resolve_iff hpos (hcount id) hs, decide_eq_true_iff]
    · rename_i hs
      refine List.countP_eq_zero.2 fun id _ hacc => hs ?_
      simp only [accepts, Bool.and_eq_true, Bool.not_eq_true', decide_eq_true_eq] at hacc
      exact ⟨hacc.1.1, hacc.2⟩
  · intro a b hab
    rw [hc, ← Assignment.count_resolve hn none] at hab
    rw [Assignment.resolve_congr hab]
  · intro taskId maxTasks
    exact ⟨Assignment.count_resolve_pos taskId maxTasks,
      Assignment.index_resolve_lt taskId maxTasks, Assignment.count_resolve_lt taskId maxTasks⟩

/-- Three workers with numbers far from their places, and a key whose hash is the least number of 32
bits. -/
theorem accepted_once_sample :
    [(-1 : Int64), 7, 3].countP (fun id =>
      (TaskFilter.mk (.resolve (some id) (some 3)) ∅).accepts ⟨"polygenelubricants", 5⟩) = 1 :=
  (accepted_once.1 3 3 (by decide) (by decide) ∅).1 [-1, 7, 3] (by decide) (by decide)
    ⟨"polygenelubricants", 5⟩

end TaskFilter

end ObjectFeed
