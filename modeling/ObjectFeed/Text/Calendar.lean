import ObjectFeed.Decimal.Shortest

/-!
# Dates and times

Points in time are counted from the start of the year 1970 and written by the calendar in use
today, for all years.

* `Date.ofDays`: the date of a day.
* `Date.chars`, `TimeOfDay.chars`, `Moment.chars`: the usual forms, with a fraction of three, six or
  nine digits unless it is zero.
* `ZoneOffset.ofText?`: differences to universal time.
-/

namespace ObjectFeed.Text

/-- A natural number with at least `width` digits. -/
def padded (width n : Nat) : List Char :=
  let ds := Decimal.digitsOf n
  List.replicate (width - ds.length) '0' ++ ds

/-- A day of a year. -/
structure Date where
  year : Int
  month : Nat
  day : Nat
deriving DecidableEq, Repr

namespace Date

/-- The date of a day. Years begin in March here, so that a leap day ends its year, and years repeat
after four hundred of them, which have 146097 days. -/
def ofDays (days : Int) : Date :=
  -- the days from the first of March of the year zero
  let z := days + 719468
  let era := z.fdiv 146097
  let dayOfEra := (z - era * 146097).toNat
  let yearOfEra := (dayOfEra - dayOfEra / 1460 + dayOfEra / 36524 - dayOfEra / 146096) / 365
  let dayOfYear := dayOfEra - (365 * yearOfEra + yearOfEra / 4 - yearOfEra / 100)
  -- from March on, five months have 153 days
  let marchMonth := (5 * dayOfYear + 2) / 153
  let month := if marchMonth < 10 then marchMonth + 3 else marchMonth - 9
  { year := era * 400 + yearOfEra + if month ≤ 2 then 1 else 0
    month
    day := dayOfYear - (153 * marchMonth + 2) / 5 + 1 }

/-- The years that can be written. -/
def isKnown (d : Date) : Bool := -262143 ≤ d.year && d.year ≤ 262142

/-- The usual form; years of more than four digits and negative ones have a sign. -/
def chars (d : Date) : List Char :=
  let year :=
    if 0 ≤ d.year ∧ d.year ≤ 9999 then padded 4 d.year.natAbs
    else (if d.year < 0 then '-' else '+') :: padded 4 d.year.natAbs
  year ++ '-' :: padded 2 d.month ++ '-' :: padded 2 d.day

end Date

/-- A time of day in nanoseconds. -/
structure TimeOfDay where
  nanos : Nat
deriving DecidableEq, Repr

namespace TimeOfDay

/-- The nanoseconds of a second. -/
def perSecond : Nat := 1000000000

/-- The seconds of a day. -/
def daySeconds : Nat := 86400

/-- A fraction of a second, without a point if it is zero. -/
def fraction (nanos : Nat) : List Char :=
  if nanos = 0 then []
  else if nanos % 1000000 = 0 then '.' :: padded 3 (nanos / 1000000)
  else if nanos % 1000 = 0 then '.' :: padded 6 (nanos / 1000)
  else '.' :: padded 9 nanos

/-- The usual form. -/
def chars (t : TimeOfDay) : List Char :=
  let s := t.nanos / perSecond
  padded 2 (s / 3600) ++ ':' :: padded 2 (s / 60 % 60) ++ ':' :: padded 2 (s % 60) ++
    fraction (t.nanos % perSecond)

end TimeOfDay

/-- A point in time. -/
structure Moment where
  date : Date
  time : TimeOfDay
deriving DecidableEq, Repr

namespace Moment

/-- The point in time after a number of nanoseconds. -/
def ofNanos (n : Int) : Moment :=
  let day : Int := TimeOfDay.daySeconds * TimeOfDay.perSecond
  { date := .ofDays (n.fdiv day), time := ⟨(n.fmod day).toNat⟩ }

/-- The usual form. -/
def chars (m : Moment) : List Char := m.date.chars ++ 'T' :: m.time.chars

end Moment

/-- A difference to universal time in minutes. -/
structure ZoneOffset where
  minutes : Int
deriving DecidableEq, Repr

namespace ZoneOffset

/-- The value of a decimal digit. -/
def digit? (c : Char) : Option Nat := if c.isDigit then some (c.toNat - '0'.toNat) else none

/-- The difference with a sign and digits for hours and minutes. -/
def ofDigits? (sign : Char) (a b c d : Char) : Option ZoneOffset := do
  let minutes := (10 * (← digit? a) + (← digit? b)) * 60 + 10 * (← digit? c) + (← digit? d)
  if 24 * 60 ≤ minutes then none
  else if sign = '+' then some ⟨minutes⟩
  else if sign = '-' then some ⟨-minutes⟩
  else none

/-- The difference in a text: a sign and two digits, four digits, or four with a colon. -/
def ofText? (s : String) : Option ZoneOffset :=
  match s.toList with
  | [sign, a, b, ':', c, d] => ofDigits? sign a b c d
  | [sign, a, b, c, d] => ofDigits? sign a b c d
  | [sign, a, b] => ofDigits? sign a b '0' '0'
  | _ => none

/-- The usual form, a letter for no difference. -/
def chars (o : ZoneOffset) : List Char :=
  if o.minutes = 0 then ['Z']
  else
    (if o.minutes < 0 then '-' else '+') :: padded 2 (o.minutes.natAbs / 60) ++
      ':' :: padded 2 (o.minutes.natAbs % 60)

end ZoneOffset

end ObjectFeed.Text
