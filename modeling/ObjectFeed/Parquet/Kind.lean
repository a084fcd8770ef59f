import ObjectFeed.Parquet.Node
import ObjectFeed.Text.Calendar

/-!
# Kinds of values

What the stored values of a column stand for. The schema says so, and a hint can be more precise.

* `Kind`: the kinds; `Kind.ofColumn?` is the kind of a column by its schema alone, and `Kind.hinted`
  the one with a hint.
* `Kind.hasForm`: the values of a kind have JSON forms.
-/

namespace ObjectFeed.Parquet

/-- What stored values stand for. -/
inductive Kind where
  | null
  | boolean
  | integer (signed : Bool) (bits : Nat)
  | float (bits : Nat)
  | text
  | binary
  | decimal (precision : Nat) (scale : Int)
  | date
  /-- A day by its milliseconds. -/
  | dateMillis
  | time (unit : TimeUnit)
  | timestamp (unit : TimeUnit) (zone : Option String)
  /-- A day and the nanoseconds in it. -/
  | dayNanos
  | duration (unit : TimeUnit)
deriving DecidableEq, Repr

namespace Kind

/-- The zone of times that are adjusted to universal time. -/
def zoneOf (utc : Bool) : Option String := if utc then some "UTC" else none

/-- The kind of decimals, which have at least one digit and not more of them behind the point than
before it and behind. -/
def decimal? (maxPrecision : Nat) (precision scale : Int) : Option Kind :=
  if 1 ≤ precision ∧ precision ≤ maxPrecision ∧ scale ≤ precision then
    some (.decimal precision.toNat scale)
  else none

/-- The widths that are stored as 32 bits. -/
def isShort (bits : Int) : Bool := bits = 8 || bits = 16 || bits = 32

/-- The kind of a column by its schema. -/
def ofColumn? (i : NodeInfo) (p : Physical) (precision scale : Int) : Option Kind :=
  match p, i.logical, i.converted with
  | .boolean, _, _ => some .boolean
  | .float, _, _ => some (.float 32)
  | .double, _, _ => some (.float 64)
  | .int96, _, _ => some .dayNanos
  | .int32, none, none => some (.integer true 32)
  | .int32, some (.integer bits signed), _ =>
    if isShort bits then some (.integer signed bits.toNat) else none
  | .int32, some (.decimal precision scale), _ => decimal? 38 precision scale
  | .int32, some .date, _ | .int32, none, some .date => some .date
  | .int32, some (.time _ .millis), _ | .int32, none, some .timeMillis => some (.time .millis)
  | .int32, some .unknown, _ => some .null
  | .int32, none, some (.integer bits signed) =>
    if isShort bits then some (.integer signed bits) else none
  | .int32, none, some .decimal => decimal? 38 precision scale
  | .int32, _, _ => none
  | .int64, none, none => some (.integer true 64)
  | .int64, some (.integer 64 signed), _ => some (.integer signed 64)
  | .int64, none, some (.integer 64 signed) => some (.integer signed 64)
  | .int64, some (.time _ .micros), _ | .int64, none, some .timeMicros => some (.time .micros)
  | .int64, some (.time _ .nanos), _ => some (.time .nanos)
  | .int64, some (.timestamp utc unit), _ => some (.timestamp unit (zoneOf utc))
  | .int64, none, some .timestampMillis => some (.timestamp .millis (zoneOf true))
  | .int64, none, some .timestampMicros => some (.timestamp .micros (zoneOf true))
  | .int64, some (.decimal precision scale), _ => decimal? 38 precision scale
  | .int64, none, some .decimal => decimal? 38 precision scale
  | .int64, _, _ => none
  | .bytes, some .string, _ | .bytes, none, some .utf8 => some .text
  | .bytes, some .json, _ | .bytes, none, some .json => some .text
  | .bytes, some .bson, _ | .bytes, none, some .bson => some .binary
  | .bytes, some .enum, _ | .bytes, none, some .enum => some .binary
  | .bytes, none, none => some .binary
  | .bytes, some (.decimal precision scale), _ => decimal? 76 precision scale
  | .bytes, none, some .decimal => decimal? 76 precision scale
  | .bytes, _, _ => none
  | .fixed _, some (.decimal precision scale), _ => decimal? 76 precision scale
  | .fixed _, none, some .decimal => decimal? 76 precision scale
  | .fixed size, some .float16, _ => if size = 2 then some (.float 16) else none
  | .fixed _, _, _ => some .binary

/-- The kind that counts where a hint names another one: the hint if it only makes the meaning of
the stored values more precise. -/
def hinted (k hint : Kind) : Kind :=
  match k, hint with
  | .integer true 32, .timestamp .. | .integer true 64, .timestamp .. => hint
  | .integer true 32, .time .seconds | .integer true 32, .time .millis => hint
  | .integer true 64, .time .micros | .integer true 64, .time .nanos => hint
  | .integer true 64, .dateMillis | .integer true 64, .duration _ => hint
  | .timestamp unit _, .timestamp unit' (some _) => if unit = unit' then hint else k
  | .binary, .text => hint
  | _, _ => k

/-- Every value of the kind has a JSON form: times in a zone need its difference to universal
time. -/
def hasForm : Kind → Bool
  | .timestamp _ (some zone) => (Text.ZoneOffset.ofText? zone).isSome
  | _ => true

end Kind

end ObjectFeed.Parquet
