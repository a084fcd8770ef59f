import ObjectFeed.Avro.Datum
import ObjectFeed.Avro.Schema
import ObjectFeed.Text.Uuid
import ObjectFeed.Varint

/-!
# Reading Avro data

A datum is read from binary data by its type. Where the data end early, a truth value, a text and
the choice of a branch are null.

* `Datum.Reader.ofType`: the reader of a type.
* `Datum.read`: the datum at the start of some bytes.
-/

namespace ObjectFeed.Avro.Datum

/-- Readers of data. -/
abbrev Reader := StateT Bytes Option

namespace Reader

/-- A number. -/
def natural : Reader Nat := fun b => (Varint.read b).toOption

/-- An integer of 64 bits. -/
def long : Reader Int := return Varint.toInt (← natural)

/-- An integer of 32 bits. -/
def int : Reader Int := do
  let n ← long
  if -(pow2 31 : Int) ≤ n ∧ n < pow2 31 then pure n else failure

/-- The longest text, list of bytes or block. -/
def maxLength : Int := 512 * 1024 * 1024

/-- A length. -/
def length : Reader Nat := do
  let n ← long
  if 0 ≤ n ∧ n ≤ maxLength then pure n.toNat else failure

/-- The next `n` bytes. -/
def take (n : Nat) : Reader Bytes := fun b =>
  let head := b.take n
  if head.length = n then some (head, b.drop n) else none

/-- Bytes after their number. -/
def counted : Reader Bytes := do take (← length)

/-- A truth value, or null at the end. -/
def flag : Reader Datum := fun b =>
  match b with
  | [] => some (.null, [])
  | 0 :: b => some (.bool false, b)
  | 1 :: b => some (.bool true, b)
  | _ => none

/-- A text, or null if the bytes end before it does. -/
def string : Reader Datum := do
  let n ← length
  match take n (← get) with
  | none =>
    set ([] : Bytes)
    return .null
  | some (head, rest) =>
    set rest
    return .text (← (Bytes.text? head : Option String))

/-- The place of a branch, or nothing at the end. -/
def branch : Reader (Option Int) := fun b =>
  match Varint.read b with
  | .ok (n, rest) => some (some (Varint.toInt n), rest)
  | .error .ends => some (none, [])
  | .error .tooLong => none

/-- A binary number of some bytes. -/
def float (f : Binary.FloatFormat) (size : Nat) : Reader Datum := do
  return .float (Double.ofPattern? f (Bytes.littleEndian (← take size)))

/-- An identifier, as its 16 bytes or as a text. -/
def uuid : Reader Datum := do
  let b ← counted
  if b.length = 16 then return .text (Text.Uuid.ofBytes b).text
  else
    let s ← (Bytes.text? b : Option String)
    return .text (← (Text.Uuid.ofText? s : Option Text.Uuid)).text

/-- The shortest two's complement of an integer, most significant byte first. -/
def trimSign : Bytes → Bytes
  | [] => [0]
  | x :: y :: b =>
    if (x = 0 ∧ y.toNat < 128) ∨ (x = 255 ∧ 128 ≤ y.toNat) then trimSign (y :: b) else x :: y :: b
  | b => b

/-- Bytes with their number before them. -/
def withCount (b : Bytes) : Bytes := Varint.write (Varint.ofInt b.length) ++ b

/-- A decimal with its own scale: the number of its bytes, the digits after their number, and the
scale. -/
def bigDecimal : Reader Datum := do
  let (digits, scale) ← ((do
    let digits ← counted
    let scale ← long
    return (trimSign digits, scale) : Reader (Bytes × Int)).run' (← counted) : Option _)
  return .bytes (withCount (withCount digits ++ Varint.write (Varint.ofInt scale)))

/-- `n` values, after those in `acc` (last first). -/
def many {α : Type} (r : Reader α) : (n : Nat) → (acc : List α) → Reader (List α)
  | 0, acc => pure acc
  | n + 1, acc => do many r n ((← r) :: acc)

/-- The size of a block; a negative one is followed by the number of its bytes. -/
def blockSize : Reader Nat := do
  let n ← long
  if n < 0 then
    let _ ← long
    if n = -(pow2 63 : Int) ∨ maxLength < -n then failure else pure n.natAbs
  else if maxLength < n then failure
  else pure n.toNat

/-- The values of all blocks up to an empty one, last first; `limit` bounds the blocks. -/
def blocks {α : Type} (r : Reader α) : (limit : Nat) → (acc : List α) → Reader (List α)
  | 0, _ => failure
  | limit + 1, acc => do
    match ← blockSize with
    | 0 => pure acc
    | n => blocks r limit (← many r n acc)

/-- The values of all blocks up to an empty one. -/
def sequence {α : Type} (r : Reader α) : Reader (List α) := do
  return (← blocks r ((← get).length + 1) []).reverse

/-- An entry of a map. -/
def entry (value : Reader Datum) : Reader (String × Datum) := do
  match ← string with
  | .text k => return (k, ← value)
  | _ => failure

/-- A datum of a type, in the scope of a namespace; `depth` bounds the nesting. -/
def ofType (ds : Schema.Definitions) :
    (depth : Nat) → (space : Option String) → Schema → Reader Datum
  | 0, _, _ => failure
  | depth + 1, space, s =>
    match s with
    | .null => pure .null
    | .boolean => flag
    | .int => return .int (← int)
    | .long => return .int (← long)
    | .float => float .single 4
    | .double => float .double 8
    | .bytes => return .bytes (← counted)
    | .string => string
    | .array items _ => return .array (← sequence (ofType ds depth space items))
    | .map values _ => do
      return .object (Members.ofList (← sequence (entry (ofType ds depth space values))))
    | .union branches => do
      match ← branch with
      | none => pure .null
      | some i =>
        if i < 0 then failure
        else
          match branches[i.toNat]? with
          | some b => ofType ds depth space b
          | none => failure
    | .record n fields _ => do
      let space := (n.qualify space).space
      return .object (← fields.mapM fun f => return (f.1.name, ← ofType ds depth space f.2))
    | .enum _ symbols _ _ => do
      let i ← int
      if i < 0 then failure
      else
        match symbols[i.toNat]? with
        | some t => pure (.text t)
        | none => failure
    | .fixed _ size _ => return .bytes (← take size)
    | .integer k => return .int (← if k.isShort then int else long)
    | .decimal _ _ inner => do
      match ← ofType ds depth space inner with
      | .bytes b => pure (.decimal b)
      | _ => failure
    | .bigDecimal => bigDecimal
    | .uuid => uuid
    | .duration => return .bytes (← take 12)
    | .ref n => do
      let n := n.qualify space
      match ds.lookup n with
      | some s => ofType ds depth n.space s
      | none => failure

end Reader

/-- The datum at the start of the bytes, and the bytes after it. Each byte can be nested in all
types of the schema. -/
def read (ds : Schema.Definitions) (s : Schema) (b : Bytes) : Option (Datum × Bytes) :=
  Reader.ofType ds ((b.length + 1) * (s.size + 1)) none s b

end ObjectFeed.Avro.Datum
