import ObjectFeed.Binary

/-!
# Shortest decimals

The decimal with the fewest digits that rounds to a given binary number. Of the grids of one
digit, two digits and so on, the first that meets the interval of the reals rounding to the
number decides; there the nearer neighbour wins and a tie goes to the even digit.

* `Decimal`: digits times a power of ten, with the two ways to write it.
* `shortest`: the shortest decimal of a number.
-/

namespace ObjectFeed

/-- The number `digits * 10 ^ exponent`. -/
structure Decimal where
  digits : Nat
  exponent : Int
deriving DecidableEq, Repr

namespace Decimal

open Binary

/-- The decimal digits of a natural number. -/
def digitsOf (n : Nat) : List Char := Nat.toDigits 10 n

/-- The same number with a last digit other than zero; `fuel` bounds the zeros dropped. -/
def strip : (fuel : Nat) → Decimal → Decimal
  | 0, d => d
  | fuel + 1, d =>
    if d.digits ≠ 0 ∧ d.digits % 10 = 0 then strip fuel ⟨d.digits / 10, d.exponent + 1⟩ else d

/-- The greatest `k` with `10 ^ k ≤ num / den`, for positive `num` and `den`. -/
def magnitude (num den : Nat) : Int :=
  -- the logarithm of two is about 0.30103, so the estimate is at most two too large
  let k : Int := ((num.log2 : Int) - den.log2) * 30103 / 100000 + 1
  let fits (k : Int) : Bool := den * pow10 k.toNat ≤ num * pow10 (-k).toNat
  if fits k then k else if fits (k - 1) then k - 1 else k - 2

/-- The reals `lo / den` to `hi / den` around `mid / den`. -/
structure Interval where
  lo : Nat
  mid : Nat
  hi : Nat
  den : Nat
  closed : Bool

namespace Interval

/-- The reals that round to `significand * 2 ^ exponent`: half a unit to both sides, less below
a power of two, and the ends if the significand is even. -/
def around (f : FloatFormat) (significand : Nat) (exponent : Int) : Interval :=
  -- in quarters of a unit
  let below := if significand = pow2 f.fractionBits ∧ f.leastExponent < exponent then 1 else 2
  let up := pow2 (exponent - 2).toNat
  ⟨(4 * significand - below) * up, 4 * significand * up, (4 * significand + 2) * up,
    pow2 (2 - exponent).toNat, significand % 2 == 0⟩

/-- The decimal is in the interval. -/
def holds (i : Interval) (d : Decimal) : Bool :=
  let x := d.digits * pow10 d.exponent.toNat * i.den
  let scale := pow10 (-d.exponent).toNat
  if i.closed then i.lo * scale ≤ x && x ≤ i.hi * scale
  else i.lo * scale < x && x < i.hi * scale

/-- The decimal of the grid `10 ^ k` in the interval that is nearest to its middle. -/
def pick (i : Interval) (k : Int) : Option Decimal :=
  let num := i.mid * pow10 (-k).toNat
  let den := i.den * pow10 k.toNat
  let below : Decimal := ⟨num / den, k⟩
  let above : Decimal := ⟨num / den + 1, k⟩
  match i.holds below, i.holds above with
  | true, true => some ⟨roundDiv num den, k⟩
  | true, false => some below
  | false, true => some above
  | false, false => none

/-- The pick of the coarsest grid that has one, from `10 ^ k` on. -/
def search (i : Interval) : (fuel : Nat) → (k : Int) → Decimal
  | 0, k => (i.pick k).getD ⟨0, 0⟩
  | fuel + 1, k => (i.pick k).getD (search i fuel (k - 1))

end Interval

/-- The shortest decimal that rounds to `significand * 2 ^ exponent`. -/
def shortest (f : FloatFormat) (significand : Nat) (exponent : Int) : Decimal :=
  if significand = 0 then ⟨0, 0⟩
  else
    let i := Interval.around f significand exponent
    strip 20 (i.search 20 (magnitude i.mid i.den))

/-- The exponent of the first digit. -/
def leading (d : Decimal) : Int := d.exponent + (digitsOf d.digits).length - 1

/-- Positional notation with at least one digit on both sides of the point. -/
def positional (d : Decimal) : List Char :=
  let ds := digitsOf d.digits
  if 0 ≤ d.exponent then ds ++ List.replicate d.exponent.toNat '0' ++ ['.', '0']
  else
    let places := (-d.exponent).toNat
    if places < ds.length then
      ds.take (ds.length - places) ++ '.' :: ds.drop (ds.length - places)
    else '0' :: '.' :: List.replicate (places - ds.length) '0' ++ ds

/-- The digits with a point after the first, if there are more. -/
def mantissa (d : Decimal) : List Char :=
  match digitsOf d.digits with
  | c :: c' :: cs => c :: '.' :: c' :: cs
  | cs => cs

end Decimal

end ObjectFeed
