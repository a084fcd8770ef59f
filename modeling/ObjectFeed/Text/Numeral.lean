/-!
# Numerals

Integers in ASCII decimal digits. Leading zeros are allowed, blanks and separators are not.

* `natural?`: digits after an optional plus sign.
* `integer?`: digits after an optional sign.
-/

namespace ObjectFeed.Text

/-- The value of decimal digits, most significant first. -/
def valueOfDigits (cs : List Char) : Nat := cs.foldl (fun n c => 10 * n + (c.toNat - 48)) 0

/-- The value of one or more ASCII digits. -/
def digits? (cs : List Char) : Option Nat :=
  if !cs.isEmpty && cs.all Char.isDigit then some (valueOfDigits cs) else none

/-- Digits after an optional plus sign, if their value is below the limit. -/
def natural? (limit : Nat) (s : String) : Option Nat :=
  let unsigned := match s.toList with
    | '+' :: cs => digits? cs
    | cs => digits? cs
  unsigned.filter (· < limit)

/-- Digits after an optional sign, if their value is in `[-limit, limit)`. -/
def integer? (limit : Nat) (s : String) : Option Int :=
  let signed : Option Int := match s.toList with
    | '-' :: cs => (digits? cs).map fun n => -(n : Int)
    | '+' :: cs => (digits? cs).map fun n => (n : Int)
    | cs => (digits? cs).map fun n => (n : Int)
  signed.filter fun n => -(limit : Int) ≤ n && n < limit

end ObjectFeed.Text
