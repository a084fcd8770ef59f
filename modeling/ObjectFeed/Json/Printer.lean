import ObjectFeed.Decimal.Shortest
import ObjectFeed.Json

/-!
# JSON texts

The compact text of a value: no blanks, and only quotes, backslashes and control characters are
escaped. A binary number is written with its shortest digits, with a point, and positionally
when the exponent of its first digit is between -5 and 15.

* `Json.compact`: the text of a value.
* `escaped`: a character inside a string.
* `Double.text`: a binary number.
-/

namespace ObjectFeed

/-- The exponents of the first digit for which a number is written positionally. -/
def Double.isPositional (exponent : Int) : Bool := -5 ≤ exponent && exponent ≤ 15

/-- The text of a binary number; infinities and not-a-numbers are null. -/
def Double.chars (x : Double) : List Char :=
  match x.value with
  | .finite negative m e =>
    let d := Decimal.shortest .double m e
    let body :=
      if m = 0 then ['0', '.', '0']
      else if Double.isPositional d.leading then d.positional
      else d.mantissa ++ 'e' :: (if d.leading < 0 then '-' else '+') ::
        Decimal.digitsOf d.leading.natAbs
    if negative then '-' :: body else body
  | _ => "null".toList

/-- `chars` as a string. -/
def Double.text (x : Double) : String := String.ofList x.chars

/-- The text of an integer. -/
def Number.intChars (n : Int) : List Char :=
  if n < 0 then '-' :: Decimal.digitsOf n.natAbs else Decimal.digitsOf n.natAbs

/-- The text of a number. -/
def Number.chars : Number → List Char
  | .int n => Number.intChars n
  | .float x => x.chars

namespace Json

/-- A character inside a string: quotes, backslashes and control characters are escaped. -/
def escaped (c : Char) : List Char :=
  if c = '"' then ['\\', '"']
  else if c = '\\' then ['\\', '\\']
  else if c = '\x08' then ['\\', 'b']
  else if c = '\x0c' then ['\\', 'f']
  else if c = '\n' then ['\\', 'n']
  else if c = '\r' then ['\\', 'r']
  else if c = '\t' then ['\\', 't']
  else if c.toNat < 0x20 then
    ['\\', 'u', '0', '0', Nat.digitChar (c.toNat / 16), Nat.digitChar (c.toNat % 16)]
  else [c]

/-- A string in quotes. -/
def stringChars (s : String) : List Char := '"' :: s.toList.flatMap escaped ++ ['"']

/-- Texts with commas between them. -/
def joined : List (List Char) → List Char
  | [] => []
  | [s] => s
  | s :: ss => s ++ ',' :: joined ss

mutual

/-- The compact text of a value. -/
def chars : Json → List Char
  | .null => ['n', 'u', 'l', 'l']
  | .bool true => ['t', 'r', 'u', 'e']
  | .bool false => ['f', 'a', 'l', 's', 'e']
  | .number n => n.chars
  | .string s => stringChars s
  | .array xs => '[' :: joined (elementChars xs) ++ [']']
  | .object ms => '{' :: joined (memberChars ms) ++ ['}']

/-- The texts of the elements of an array. -/
def elementChars : List Json → List (List Char)
  | [] => []
  | x :: xs => chars x :: elementChars xs

/-- The texts of the members of an object. -/
def memberChars : List (String × Json) → List (List Char)
  | [] => []
  | (k, x) :: ms => (stringChars k ++ ':' :: chars x) :: memberChars ms

end

/-- `chars` as a string. -/
def compact (v : Json) : String := String.ofList v.chars

end Json

end ObjectFeed
