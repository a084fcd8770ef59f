import ObjectFeed.Dict
import ObjectFeed.Power
import ObjectFeed.Text.Utf16

/-!
# Assignment of objects to workers

Every worker owns the keys whose hash is congruent to its index modulo the number of workers, so
the objects are split without overlap and without coordination.

* `keyHash`: the polynomial hash of the UTF-16 units, in wrapping 32-bit arithmetic.
* `Assignment.resolve`: index and count from raw settings, which may be missing or out of range.
* `TaskFilter.accepts`: non-empty objects that are owned and have not failed.
-/

namespace ObjectFeed

/-- The hash of a key: base 31 over its UTF-16 units, in wrapping 32-bit arithmetic. -/
def keyHash (s : String) : Int32 :=
  (Text.units s).foldl (fun h u => h * 31 + Int32.ofNat u) 0

/-- A worker's place among all workers. -/
structure Assignment where
  index : Nat
  count : Nat
deriving DecidableEq, Repr

namespace Assignment

/-- The only worker. -/
def single : Assignment := ⟨0, 1⟩

instance : Inhabited Assignment := ⟨single⟩

/-- The number of workers is as set, at most `2 ^ 32 - 1`, and one if it is missing or not
positive. The index is the raw ordinal modulo that number. -/
def resolve (taskId maxTasks : Option Int64) : Assignment :=
  let count : Nat := match maxTasks with
    | some n => if 0 < n.toInt then min n.toInt.toNat (pow2 32 - 1) else 1
    | none => 1
  let raw := (taskId.map Int64.toInt).getD 0
  ⟨(raw % count).toNat, count⟩

/-- The key's hash is congruent to the worker's index. -/
def owns (a : Assignment) (key : String) : Bool := (keyHash key).toInt % a.count == a.index

theorem count_resolve_pos (taskId maxTasks : Option Int64) :
    0 < (resolve taskId maxTasks).count := by
  have limit : pow2 32 = 4294967296 := rfl
  unfold resolve
  cases maxTasks with
  | none => simp
  | some n => simp only; split <;> omega

theorem index_resolve_lt (taskId maxTasks : Option Int64) :
    (resolve taskId maxTasks).index < (resolve taskId maxTasks).count := by
  have h := count_resolve_pos taskId maxTasks
  let raw := (taskId.map Int64.toInt).getD 0
  have hle := Int.emod_nonneg raw (Int.natCast_ne_zero.2 (Nat.ne_of_gt h))
  have hlt := Int.emod_lt_of_pos raw (Int.natCast_pos.2 h)
  exact (Int.toNat_lt hle).2 hlt

end Assignment

/-- Key and size of an object. -/
structure Summary where
  key : String
  size : Nat
deriving DecidableEq, Repr, Inhabited

/-- A set of keys, in increasing order. -/
abbrev KeySet := Dict Unit

/-- The set of the keys. -/
def KeySet.ofList (keys : List String) : KeySet := Dict.ofList (keys.map fun k => (k, ()))

/-- Which objects a worker processes. -/
structure TaskFilter where
  assignment : Assignment
  failed : KeySet := ∅

namespace TaskFilter

/-- The object is not empty, the worker owns it, and it has not failed. -/
def accepts (f : TaskFilter) (s : Summary) : Bool :=
  0 < s.size && f.assignment.owns s.key && !f.failed.contains s.key

/-- Excludes a key from now on. -/
def markFailed (f : TaskFilter) (key : String) : TaskFilter :=
  { f with failed := f.failed.insert key () }

end TaskFilter

end ObjectFeed
