import Mathlib.Algebra.BigOperators.Fin
import Mathlib.Data.Int.ModEq
import Mathlib.Tactic.Ring
import ObjectFeed.Assignment

/-!
# The hash of a key

The hash of a key is computed in steps that wrap around. Taken together they are one polynomial over
the integers, reduced once: its coefficients are the UTF-16 units of the key and its base is 31.

* `Text.Utf16`, `Text.utf16_units`: the units of a text, by what they stand for.
* `polynomial`, `polynomial_cons`: the polynomial of some units.
* `toInt_hashStep`, `toInt_foldl_hashStep`: one step of the hash, and all of them.
* `keyHash_append`: the hash of a text in two parts.
* `keyHash_polynomial`: **the hash is that polynomial, and it decides who owns a key.**
-/

namespace ObjectFeed

namespace Text

/-- The units spell the text: a unit stands for the character with its number, and a high and a low
surrogate stand for one above U+FFFF. -/
inductive Utf16 : List Char → List Nat → Prop where
  | nil : Utf16 [] []
  | basic {c : Char} {cs : List Char} {us : List Nat} (hc : c.toNat < 0x10000)
      (rest : Utf16 cs us) : Utf16 (c :: cs) (c.toNat :: us)
  | pair {c : Char} {cs : List Char} {us : List Nat} {high low : Nat}
      (hhigh : 0xD800 ≤ high ∧ high < 0xDC00) (hlow : 0xDC00 ≤ low ∧ low < 0xE000)
      (hc : c.toNat = 0x10000 + (high - 0xD800) * 0x400 + (low - 0xDC00))
      (rest : Utf16 cs us) : Utf16 (c :: cs) (high :: low :: us)

/-- The units of a text spell it. -/
theorem utf16_units (s : String) : Utf16 s.toList (units s) := by
  unfold units
  induction s.toList with
  | nil => exact .nil
  | cons c cs ih =>
    rw [List.flatMap_cons]
    unfold unitsOf
    by_cases hc : c.toNat < 0x10000
    · rw [if_pos hc]
      exact .basic hc ih
    · -- the twenty bits above U+FFFF are split in the middle
      have hlast : c.toNat < 0x110000 := by
        have hvalid := c.valid
        simp only [UInt32.isValidChar, Nat.isValidChar] at hvalid
        have hval : c.toNat = c.val.toNat := rfl
        omega
      rw [if_neg hc]
      exact .pair (by omega) (by omega) (by omega) ih

end Text

open Text (units units_append)

/-- The polynomial in 31 with the units as its coefficients, from the highest power on. -/
def polynomial (us : List Nat) : Int :=
  ∑ i : Fin us.length, (us[i] : Int) * 31 ^ (us.length - 1 - i)

theorem polynomial_cons (u : Nat) (us : List Nat) :
    polynomial (u :: us) = u * 31 ^ us.length + polynomial us := by
  have hfirst : us.length + 1 - 1 - 0 = us.length := by omega
  have hrest : ∀ i : Fin us.length, us.length + 1 - 1 - (i + 1) = us.length - 1 - i := by
    intro i
    omega
  have hsplit : polynomial (u :: us) = u * 31 ^ (us.length + 1 - 1 - 0) +
      ∑ i : Fin us.length, (us[i] : Int) * 31 ^ (us.length + 1 - 1 - (i + 1)) :=
    Fin.sum_univ_succ fun i : Fin (us.length + 1) =>
      (((u :: us)[i] : Nat) : Int) * 31 ^ (us.length + 1 - 1 - i)
  rw [hsplit, hfirst]
  simp only [hrest]
  rfl

/-- One step of the hash. -/
def hashStep (h : Int32) (u : Nat) : Int32 := h * 31 + Int32.ofNat u

/-- **A step of the hash wraps around**, and is a step of Horner's rule but for that. -/
theorem toInt_hashStep (h : Int32) (u : Nat) :
    (hashStep h u).toInt ≡ h.toInt * 31 + u [ZMOD 2 ^ 32] := by
  have hwraps : ∀ x : Int, x.bmod (2 ^ 32) ≡ x [ZMOD 2 ^ 32] := fun x => Int.bmod_emod
  have hunit : (Int32.ofNat u).toInt ≡ u [ZMOD 2 ^ 32] := by
    rw [Int32.toInt_ofNat']
    exact hwraps u
  have hproduct : (h * 31).toInt ≡ h.toInt * 31 [ZMOD 2 ^ 32] := by
    rw [Int32.toInt_mul]
    exact hwraps _
  unfold hashStep
  rw [Int32.toInt_add]
  exact (hwraps _).trans (hproduct.add hunit)

/-- **All steps together** are the polynomial of their units, after what was hashed before. By
induction on the units: each step moves what was hashed before up by one power. -/
theorem toInt_foldl_hashStep (us : List Nat) (h : Int32) :
    (us.foldl hashStep h).toInt ≡ h.toInt * 31 ^ us.length + polynomial us [ZMOD 2 ^ 32] := by
  induction us generalizing h with
  | nil =>
    have hnothing : h.toInt * 31 ^ ([] : List Nat).length + polynomial [] = h.toInt := by
      simp [polynomial]
    rw [hnothing]
    exact Int.ModEq.refl _
  | cons u us ih =>
    have hstep := (toInt_hashStep h u).mul_right (31 ^ us.length)
    calc ((u :: us).foldl hashStep h).toInt
        ≡ (hashStep h u).toInt * 31 ^ us.length + polynomial us [ZMOD 2 ^ 32] := ih _
      _ ≡ (h.toInt * 31 + u) * 31 ^ us.length + polynomial us [ZMOD 2 ^ 32] := hstep.add_right _
      _ = h.toInt * 31 ^ (u :: us).length + polynomial (u :: us) := by
        rw [polynomial_cons, List.length_cons]
        ring

theorem keyHash_eq (s : String) : keyHash s = (units s).foldl hashStep 0 := rfl

theorem toInt_keyHash (s : String) : (keyHash s).toInt ≡ polynomial (units s) [ZMOD 2 ^ 32] := by
  have hall := toInt_foldl_hashStep (units s) 0
  rwa [Int32.toInt_zero, zero_mul, zero_add] at hall

/-- The hash of the first part of a text is moved up by the units of the second part. -/
theorem keyHash_append (a b : String) : (keyHash (a ++ b)).toInt ≡
    (keyHash a).toInt * 31 ^ (units b).length + (keyHash b).toInt [ZMOD 2 ^ 32] := by
  have hall := toInt_foldl_hashStep (units b) (keyHash a)
  rw [keyHash_eq a, ← List.foldl_append, ← units_append, ← keyHash_eq, ← keyHash_eq] at hall
  exact hall.trans ((toInt_keyHash b).symm.add_left _)

/-- **The hash of a key is the polynomial of its UTF-16 units**, brought into the range of 32 bits
with a sign. So the hash of a text in two parts is made of the hashes of the parts, and the worker
that owns a key is the hash modulo the number of workers, by the modulus that takes the sign of the
divisor. -/
theorem keyHash_polynomial :
    (∀ s : String, Text.Utf16 s.toList (units s) ∧
      -2 ^ 31 ≤ (keyHash s).toInt ∧ (keyHash s).toInt < 2 ^ 31 ∧
      (keyHash s).toInt ≡
        ∑ i : Fin (units s).length, ((units s)[i] : Int) * 31 ^ ((units s).length - 1 - i)
        [ZMOD 2 ^ 32]) ∧
    (∀ a b : String, (keyHash (a ++ b)).toInt ≡
      (keyHash a).toInt * 31 ^ (units b).length + (keyHash b).toInt [ZMOD 2 ^ 32]) ∧
    ∀ (a : Assignment) (key : String),
      a.owns key = true ↔ (keyHash key).toInt.fmod a.count = a.index := by
  refine ⟨fun s => ?_, keyHash_append, fun a key => ?_⟩
  · exact ⟨Text.utf16_units s, Int32.le_toInt _, Int32.toInt_lt _, toInt_keyHash s⟩
  · rw [Assignment.owns, beq_iff_eq, Int.fmod_eq_emod_of_nonneg _ (Int.natCast_nonneg _)]

/-- A key above U+FFFF has two units, and the hash of a key can be the least number of 32 bits. -/
example : units "😀" = [0xD83D, 0xDE00] ∧
    (keyHash "polygenelubricants").toInt = -2 ^ 31 := by decide

end ObjectFeed
