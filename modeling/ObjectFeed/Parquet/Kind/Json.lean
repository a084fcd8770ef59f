import ObjectFeed.Json.Reader
import ObjectFeed.Parquet.Encoding
import ObjectFeed.Parquet.Kind

/-!
# JSON forms of values

Numbers with a fraction are written first, with the fewest digits that tell them apart, and then
read as JSON numbers. Dates and times are texts, and bytes are hexadecimal ones.

* `Kind.json?`: the JSON form of a value.
-/

namespace ObjectFeed.Parquet.Kind

/-- The symbol of a unit of time. -/
def symbol : TimeUnit → String
  | .seconds => "s"
  | .millis => "ms"
  | .micros => "µs"
  | .nanos => "ns"

/-- The name of a kind of times. -/
def name : Kind → String
  | .date => "Date32"
  | .dateMillis => "Date64"
  | .time unit =>
    (if unit = .seconds ∨ unit = .millis then "Time32(" else "Time64(") ++ symbol unit ++ ")"
  | .timestamp unit none => "Timestamp(" ++ symbol unit ++ ")"
  | .timestamp unit (some zone) => "Timestamp(" ++ symbol unit ++ ", \"" ++ zone ++ "\")"
  | _ => ""

/-- The text in place of a time that cannot be written. -/
def unwritable (value : Int) (what : String) (k : Kind) : List Char :=
  ("ERROR: Cast error: Failed to convert " ++ intText value ++ " to " ++ what ++ " for " ++
    k.name).toList

/-- The nanoseconds of a number of units. -/
def nanosOf (unit : TimeUnit) (n : Int) : Int :=
  n * (Text.TimeOfDay.perSecond / unit.perSecond : Nat)

/-- A point in time, if its year can be written. -/
def moment? (nanos : Int) : Option Text.Moment :=
  let m := Text.Moment.ofNanos nanos
  if m.date.isKnown then some m else none

/-- A day. -/
def dateChars (n : Int) : List Char :=
  let d := Text.Date.ofDays n
  if d.isKnown then d.chars else unwritable n "temporal" .date

/-- A time of day. -/
def timeChars (unit : TimeUnit) (n : Int) : List Char :=
  let nanos := nanosOf unit n
  if 0 ≤ nanos ∧ nanos < Text.TimeOfDay.daySeconds * Text.TimeOfDay.perSecond then
    (Text.TimeOfDay.mk nanos.toNat).chars
  else unwritable n "temporal" (.time unit)

/-- A point in time, with the difference to universal time if there is a zone. -/
def timestampChars (unit : TimeUnit) (zone : Option String) (n : Int) : List Char :=
  match moment? (nanosOf unit n), zone.map Text.ZoneOffset.ofText? with
  | none, _ => unwritable n "datetime" (.timestamp unit zone)
  | some m, none => m.chars
  | some _, some (some o) =>
    (Text.Moment.ofNanos (nanosOf unit n + nanosOf .seconds (60 * o.minutes))).chars ++ o.chars
  | some m, some none => m.chars

/-- A length of time in seconds, without zeros at the end of the fraction. -/
def durationChars (unit : TimeUnit) (n : Int) : List Char :=
  let nanos := (nanosOf unit n).natAbs
  let fraction := Text.padded 9 (nanos % Text.TimeOfDay.perSecond)
  let fraction := (fraction.reverse.dropWhile (· == '0')).reverse
  (if n < 0 then ['-'] else []) ++
    if nanos = 0 then "P0D".toList
    else
      "PT".toList ++ Decimal.digitsOf (nanos / Text.TimeOfDay.perSecond) ++
        (if fraction.isEmpty then [] else '.' :: fraction) ++ ['S']

/-- The day on which the count of days of astronomers is that of the first day of 1970. -/
def astronomicalDay : Nat := 2440588

/-- The nanoseconds up to a day and nanoseconds in it, as far as 64 bits go. -/
def dayNanosOf (pattern : Nat) : Int :=
  let day : Int := (pattern / pow2 64 : Nat)
  let perDay := Text.TimeOfDay.daySeconds * Text.TimeOfDay.perSecond
  let nanos := (day - astronomicalDay) * perDay
  Bytes.signed 64 ((nanos + (pattern % pow2 64 : Nat)) % pow2 64).toNat

/-- A decimal with its sign: not more digits than the precision, with `scale` of them behind a
point. -/
def decimalChars (precision : Nat) (scale : Int) (n : Int) : List Char :=
  let ds := (Decimal.digitsOf n.natAbs).take precision
  let sign := if n < 0 then ['-'] else []
  if scale < 0 then sign ++ ds ++ List.replicate scale.natAbs '0'
  else
    let places := scale.toNat
    if places = 0 then sign ++ ds
    else if places < ds.length then
      sign ++ ds.take (ds.length - places) ++ '.' :: ds.drop (ds.length - places)
    else sign ++ '0' :: '.' :: List.replicate (places - ds.length) '0' ++ ds

/-- The exponents of the first digit for which a binary number is written positionally. -/
def isPositional (exponent : Int) : Bool := -5 ≤ exponent && exponent ≤ 9

/-- The format of binary numbers of some bits. -/
def format (bits : Nat) : Binary.FloatFormat :=
  if bits = 64 then .double else .single

/-- A finite binary number with its shortest digits, at least one of them behind the point. -/
def floatChars (f : Binary.FloatFormat) (negative : Bool) (significand : Nat) (exponent : Int) :
    List Char :=
  let d := Decimal.shortest f significand exponent
  let body :=
    if significand = 0 ∨ isPositional d.leading then d.positional
    else
      let m := d.mantissa
      (if m.length = 1 then m ++ ['.', '0'] else m) ++ 'e' :: (intText d.leading).toList
  if negative then '-' :: body else body

/-- The number that a text spells. -/
def numeral? (cs : List Char) : Option Json := (Json.parse cs).toOption

/-- The JSON form of a binary number by its pattern; those that are not finite are null. -/
def floatJson? (bits pattern : Nat) : Option Json :=
  let pattern :=
    if bits = 16 then
      match Binary.FloatFormat.half.value pattern with
      | .finite negative m e => Binary.FloatFormat.single.ofScaled negative m e
      | _ => Binary.FloatFormat.single.infinity
    else pattern
  match (format bits).value pattern with
  | .finite negative m e => numeral? (floatChars (format bits) negative m e)
  | _ => some .null

/-- A list of characters as a JSON string. -/
def ofChars (cs : List Char) : Json := .string (String.ofList cs)

/-- The integer that a stored value spells. -/
def integerOf (bits : Nat) : Stored → Int
  | .word n => Bytes.signed bits n
  | .bytes b => if b.isEmpty then 0 else Bytes.signed (8 * b.length) (Bytes.bigEndian b)
  | .flag b => b.toNat

/-- The number of bits of the words of a column. -/
def wordBits (p : Physical) : Nat := 8 * Encoding.width p

/-- The JSON form of a value; a number may be too large for it. -/
def json? (p : Physical) (k : Kind) (v : Stored) : Option Json :=
  let n := integerOf (wordBits p) v
  match k, v with
  | .null, _ => some .null
  | .boolean, .flag b => some (.bool b)
  | .integer true bits, .word n => some (.ofInt (Bytes.signed bits n))
  | .integer false bits, .word n => some (.ofNat (n % pow2 bits))
  | .float bits, .word n => floatJson? bits n
  | .float bits, .bytes b => floatJson? bits (Bytes.littleEndian b)
  | .text, .bytes b => some (.string (b.text?.getD ""))
  | .binary, .bytes b => some (.string b.hex)
  | .decimal precision scale, _ => numeral? (decimalChars precision scale n)
  | .date, _ => some (ofChars (dateChars n))
  | .dateMillis, _ =>
    some (ofChars (match moment? (nanosOf .millis n) with
      | some m => m.chars
      | none => unwritable n "temporal" .dateMillis))
  | .time unit, _ => some (ofChars (timeChars unit n))
  | .timestamp unit zone, _ => some (ofChars (timestampChars unit zone n))
  | .dayNanos, .word pattern => some (ofChars (timestampChars .nanos none (dayNanosOf pattern)))
  | .duration unit, _ => some (ofChars (durationChars unit n))
  | _, _ => some .null

end ObjectFeed.Parquet.Kind
