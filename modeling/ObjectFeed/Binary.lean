import ObjectFeed.Power

/-!
# Binary floating point

The numbers of a binary interchange format, by bit pattern and as integers times powers of two.
All arithmetic is exact and then rounded once.

* `FloatFormat.nearest`: the pattern of the number nearest to a quotient, ties to the even pattern.
* `FloatFormat.value`: what a pattern stands for.
* `Double`: the 64-bit format, with conversion, product and quotient.
-/

namespace ObjectFeed.Binary

/-- `num / den` rounded to the nearest integer, a tie to the even one. -/
def roundDiv (num den : Nat) : Nat :=
  let q := num / den
  let r := num % den
  if 2 * r < den || (2 * r == den && q % 2 == 0) then q else q + 1

/-- The widths of a format's fields; the sign takes one more bit. -/
structure FloatFormat where
  fractionBits : Nat
  exponentBits : Nat

/-- What a bit pattern stands for: `± significand * 2 ^ exponent`, or no finite number. -/
inductive Value where
  | finite (negative : Bool) (significand : Nat) (exponent : Int)
  | infinite (negative : Bool)
  | nan

namespace FloatFormat

/-- 16 bits. -/
def half : FloatFormat := ⟨10, 5⟩

/-- 32 bits. -/
def single : FloatFormat := ⟨23, 8⟩

/-- 64 bits. -/
def double : FloatFormat := ⟨52, 11⟩

/-- The smallest positive number is `2 ^ leastExponent`. -/
def leastExponent (f : FloatFormat) : Int := 2 - pow2 (f.exponentBits - 1) - f.fractionBits

/-- The pattern of positive infinity. -/
def infinity (f : FloatFormat) : Nat := (pow2 f.exponentBits - 1) * pow2 f.fractionBits

/-- The bit that negative numbers have. -/
def signBit (f : FloatFormat) : Nat := pow2 (f.fractionBits + f.exponentBits)

/-- The pattern of the number nearest to `num / den`, infinity from half a unit above the
largest number on. -/
def nearest (f : FloatFormat) (num den : Nat) : Nat :=
  if num = 0 then 0
  else
    -- the quotient is at least `2 ^ top` and less than twice that
    let k : Int := (num.log2 : Int) - den.log2
    let top := if den * pow2 k.toNat ≤ num * pow2 (-k).toNat then k else k - 1
    -- numbers below the smallest normal one all have the same unit
    let unit := max (top - f.fractionBits) f.leastExponent
    let m := roundDiv (num * pow2 (-unit).toNat) (den * pow2 unit.toNat)
    min ((unit - f.leastExponent).toNat * pow2 f.fractionBits + m) f.infinity

/-- What a pattern stands for. -/
def value (f : FloatFormat) (bits : Nat) : Value :=
  let negative := bits / f.signBit % 2 == 1
  let exponent := bits / pow2 f.fractionBits % pow2 f.exponentBits
  let fraction := bits % pow2 f.fractionBits
  if exponent = 0 then .finite negative fraction f.leastExponent
  else if exponent + 1 < pow2 f.exponentBits then
    .finite negative (pow2 f.fractionBits + fraction) (f.leastExponent + exponent - 1)
  else if fraction = 0 then .infinite negative
  else .nan

/-- The pattern of `± num / den`. -/
def ofQuotient (f : FloatFormat) (negative : Bool) (num den : Nat) : Nat :=
  f.nearest num den + if negative then f.signBit else 0

/-- The pattern of `± significand * 2 ^ exponent`. -/
def ofScaled (f : FloatFormat) (negative : Bool) (significand : Nat) (exponent : Int) : Nat :=
  f.ofQuotient negative (significand * pow2 exponent.toNat) (pow2 (-exponent).toNat)

end FloatFormat

end Binary

/-- A number of the 64-bit binary format, by its bit pattern. -/
structure Double where
  bits : UInt64
deriving DecidableEq, Repr, Inhabited

namespace Double

open Binary

/-- What the number is. -/
def value (x : Double) : Value := FloatFormat.double.value x.bits.toNat

/-- The nearest number to `± num / den`. -/
def ofQuotient (negative : Bool) (num den : Nat) : Double :=
  ⟨(FloatFormat.double.ofQuotient negative num den).toUInt64⟩

/-- The nearest number to an integer. -/
def ofInt (n : Int) : Double := ofQuotient (n < 0) n.natAbs 1

/-- The nearest number to `± significand * 2 ^ exponent`. -/
def ofScaled (negative : Bool) (significand : Nat) (exponent : Int) : Double :=
  ⟨(FloatFormat.double.ofScaled negative significand exponent).toUInt64⟩

/-- The number that a pattern of another format stands for; infinities and not-a-numbers have
none. -/
def ofPattern? (f : FloatFormat) (bits : Nat) : Option Double :=
  match f.value bits with
  | .finite negative m e => some (ofScaled negative m e)
  | _ => none

/-- Finite numbers. -/
def isFinite (x : Double) : Bool := x.value matches .finite ..

/-- Positive and negative zero. -/
def isZero (x : Double) : Bool := x.value matches .finite _ 0 _

/-- The product of two finite numbers, rounded. -/
def mul (x y : Double) : Double :=
  match x.value, y.value with
  | .finite n m e, .finite n' m' e' => ofScaled (n != n') (m * m') (e + e')
  | _, _ => x

/-- The quotient of two finite numbers, rounded. -/
def div (x y : Double) : Double :=
  match x.value, y.value with
  | .finite n m e, .finite n' m' e' =>
    ofQuotient (n != n') (m * pow2 (e - e').toNat) (m' * pow2 (e' - e).toNat)
  | _, _ => x

/-- Equality of values: the two zeros are equal. -/
def same (x y : Double) : Bool := x == y || (x.isZero && y.isZero)

end Double

end ObjectFeed
