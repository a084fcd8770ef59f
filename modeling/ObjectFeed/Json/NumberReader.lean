import ObjectFeed.Json.Cursor

/-!
# Reading JSON numbers

An integer that fits 64 bits stays an integer. Any other number is binary: its digits are
collected as long as they fit 64 bits, and the result is scaled by a power of ten.

* `Reader.number`: the number after an optional sign.
* `scaled?`: digits times a power of ten; too large a number has no value.
* `Reader.skipNumber`: passes over a number without its value.
-/

namespace ObjectFeed.Json

/-- Digits are collected up to this bound. -/
def significandLimit : Nat := pow2 64

/-- Exponents are collected up to this bound. -/
def exponentLimit : Nat := pow2 31

/-- The value of a decimal digit. -/
def digitValue (c : Char) : Nat := c.toNat - '0'.toNat

/-- `x / 10 ^ k`, in steps of at most 308; `fuel` bounds the steps. -/
def scaleDown : (fuel : Nat) → (x : Double) → (k : Nat) → Double
  | 0, x, _ => x
  | fuel + 1, x, k =>
    if k ≤ 308 then x.div (.ofQuotient false (pow10 k) 1)
    else if x.isZero then x
    else scaleDown fuel (x.div (.ofQuotient false (pow10 308) 1)) (k - 308)

/-- `significand * 10 ^ exponent`, each step rounded; infinity has no value. -/
def scaled? (significand : Nat) (exponent : Int) : Option Double :=
  let x := Double.ofQuotient false significand 1
  if exponent < 0 then some (scaleDown 5 x (-exponent).toNat)
  else if 308 < exponent then if significand = 0 then some x else none
  else
    let y := x.mul (.ofQuotient false (pow10 exponent.toNat) 1)
    if y.isFinite then some y else none

namespace Reader

/-- The digits that fit after a significand, with their count; the first digit that does not
fit stays. -/
def collect : (limit : Nat) → (significand count : Nat) → Reader (Nat × Nat)
  | 0, m, n => pure (m, n)
  | limit + 1, m, n => do
    match ← peek with
    | some c =>
      if c.isDigit && m * 10 + digitValue c < significandLimit then
        skip
        collect limit (m * 10 + digitValue c) (n + 1)
      else pure (m, n)
    | none => pure (m, n)

/-- The digits of an exponent; none if they do not fit, with the digit at fault passed over. -/
def exponentDigits : (limit : Nat) → (e : Nat) → Reader (Option Nat)
  | 0, e => pure e
  | limit + 1, e => do
    match ← peek with
    | some c =>
      if c.isDigit then
        skip
        if e * 10 + digitValue c < exponentLimit then
          exponentDigits limit (e * 10 + digitValue c)
        else pure none
      else pure (some e)
    | none => pure (some e)

/-- A binary number with its sign. -/
def binary (negative : Bool) (x : Double) : Number :=
  .float (if negative then ⟨x.bits ^^^ 0x8000000000000000⟩ else x)

/-- The scaled number, at the end of its text. -/
def finish (negative : Bool) (significand : Nat) (exponent : Int) : Reader Number :=
  match scaled? significand exponent with
  | some x => pure (binary negative x)
  | none => fail .numberOutOfRange

/-- The exponent part, from its letter on. -/
def exponentPart (limit : Nat) (negative : Bool) (significand : Nat) (start : Int) :
    Reader Number := do
  skip
  let down ← do
    match ← peek with
    | some '+' => skip; pure false
    | some '-' => skip; pure true
    | _ => pure false
  match ← peek with
  | none => fail .valueEnds
  | some c =>
    if !c.isDigit then failAhead .invalidNumber
    else
      match ← exponentDigits limit 0 with
      | some e => finish negative significand (if down then start - e else start + e)
      | none =>
        -- zero stays zero, and too small a number is zero
        if significand ≠ 0 && !down then fail .numberOutOfRange
        else
          let _ ← takeWhile Char.isDigit
          pure (binary negative (.ofInt 0))

/-- The number, if no exponent follows. -/
def afterDigits (limit : Nat) (negative : Bool) (significand : Nat) (exponent : Int) :
    Reader Number := do
  match ← peek with
  | some 'e' | some 'E' => exponentPart limit negative significand exponent
  | _ => finish negative significand exponent

/-- The fraction part, from its point on. -/
def fractionPart (limit : Nat) (negative : Bool) (significand : Nat) (start : Int) :
    Reader Number := do
  skip
  let (m, n) ← collect limit significand 0
  match ← takeWhile Char.isDigit with
  | [] =>
    if n = 0 then
      match ← peek with
      | none => fail .valueEnds
      | some _ => failAhead .invalidNumber
    else afterDigits limit negative m (start - n)
  | _ :: _ => afterDigits limit negative m (start - n)

/-- An integer token: binary if it is negative zero or needs more than 64 bits. -/
def whole (negative : Bool) (m : Nat) : Number :=
  if !negative then .int m
  else if m = 0 ∨ pow2 63 < m then binary true (.ofInt m)
  else .int (-m)

/-- What follows the first digits. -/
def afterWhole (limit : Nat) (negative : Bool) (m : Nat) : Reader Number := do
  match ← peek with
  | some '.' => fractionPart limit negative m 0
  | some 'e' | some 'E' => exponentPart limit negative m 0
  | _ => pure (whole negative m)

/-- A number after its sign. -/
def number (limit : Nat) (negative : Bool) : Reader Number := do
  match ← peek with
  | none => fail .valueEnds
  | some c =>
    if c = '0' then
      skip
      match ← peek with
      | some d => if d.isDigit then failAhead .invalidNumber else afterWhole limit negative 0
      | none => afterWhole limit negative 0
    else if c.isDigit then
      let (m, _) ← collect limit 0 0
      match ← takeWhile Char.isDigit with
      | [] => afterWhole limit negative m
      | dropped =>
        match ← peek with
        | some '.' => fractionPart limit negative m dropped.length
        | _ => afterDigits limit negative m dropped.length
    else failAhead .invalidNumber

/-- Passes over an exponent, from its letter on. -/
def skipExponent : Reader Unit := do
  skip
  match ← peek with
  | some '+' | some '-' => skip
  | _ => pure ()
  match ← takeWhile Char.isDigit with
  | [] => failAhead .invalidNumber
  | _ :: _ => pure ()

/-- Passes over a number after its sign. -/
def skipNumber : Reader Unit := do
  match ← peek with
  | some '0' =>
    skip
    match ← peek with
    | some c => if c.isDigit then failAhead .invalidNumber
    | none => pure ()
  | _ =>
    match ← takeWhile Char.isDigit with
    | [] => failAhead .invalidNumber
    | _ :: _ => pure ()
  match ← peek with
  | some '.' =>
    skip
    match ← takeWhile Char.isDigit with
    | [] => failAhead .invalidNumber
    | _ :: _ =>
      match ← peek with
      | some 'e' | some 'E' => skipExponent
      | _ => pure ()
  | some 'e' | some 'E' => skipExponent
  | _ => pure ()

end Reader

end ObjectFeed.Json
