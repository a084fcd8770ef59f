import ObjectFeed.Avro.Schema
import ObjectFeed.Bytes
import ObjectFeed.Varint

/-!
# Writing Avro data

A JSON value has a binary form by a type if the type admits it as it is. Of a union the first branch
that is made for such a value is taken.

* `Writer.write?`: the binary form of a value by a type.
-/

namespace ObjectFeed.Avro.Writer

/-- The binary form of an integer. -/
def long (n : Int) : Bytes := Varint.write (Varint.ofInt n)

/-- Bytes after their number. -/
def counted (b : Bytes) : Bytes := long b.length ++ b

/-- An integer fits into a number of bits. -/
def fits (bits : Nat) (n : Int) : Bool := -(pow2 (bits - 1) : Int) ≤ n && n < pow2 (bits - 1)

/-- The bits of the integers of a type. -/
def integerBits? : Schema → Option Nat
  | .int => some 32
  | .long => some 64
  | .integer k => some (if k.isShort then 32 else 64)
  | _ => none

/-- A binary number in another format. -/
def pattern (f : Binary.FloatFormat) (x : Double) : Nat :=
  match x.value with
  | .finite negative m e => f.ofScaled negative m e
  | .infinite negative => f.infinity + if negative then f.signBit else 0
  | .nan => f.infinity + 1

/-- A branch is made for a value. -/
def suits : Json → Schema → Bool
  | .null, .null => true
  | .bool _, .boolean => true
  | .number (.int n), s => ((integerBits? s).map fun bits => fits bits n).getD false
  | .number (.float _), .float | .number (.float _), .double => true
  | .string _, .string | .string _, .bytes | .string _, .uuid => true
  | .string _, .fixed .. | .string _, .ref _ => true
  | .array _, .array .. => true
  | .object ms, .record _ fields _ => ms.length == fields.length
  | .object _, .map .. | .object _, .ref _ => true
  | _, _ => false

/-- A member belongs to a field by its name or an alias. -/
def isMember (i : FieldInfo) (m : String × Json) : Bool := i.name == m.1 || i.aliases.contains m.1

/-- The binary forms of the fields of a record; a member that is missing has its default. -/
def fields? (write? : Schema → Json → Option Bytes) (ms : List (String × Json)) :
    List (FieldInfo × Schema) → Option Bytes
  | [] => some []
  | (i, s) :: fs => do
    let v ← (ms.find? (isMember i)).map (·.2) <|> i.default
    return (← write? s v) ++ (← fields? write? ms fs)

/-- A block with all elements, unless there is none, and the empty one. -/
def block (elements : List Bytes) : Bytes :=
  (if elements.isEmpty then [] else long elements.length ++ elements.flatten) ++ long 0

/-- The binary form of a value by a type; `depth` bounds the nesting. -/
def write? (ds : Schema.Definitions) : (depth : Nat) → Schema → Json → Option Bytes
  | 0, _, _ => none
  | depth + 1, s, v =>
    match s, v with
    | .union branches, v => do
      let i ← branches.findIdx? (suits v)
      return long i ++ (← write? ds depth (← branches[i]?) v)
    | .ref n, v => do write? ds depth (← ds.lookup n) v
    | .null, .null => some []
    | .boolean, .bool b => some [if b then 1 else 0]
    | .float, .number (.float x) => some (Bytes.ofLittleEndian 4 (pattern .single x))
    | .double, .number (.float x) => some (Bytes.ofLittleEndian 8 x.bits.toNat)
    | .string, .string t | .bytes, .string t | .uuid, .string t => some (counted (Bytes.ofText t))
    | .fixed _ size _, .string t => if t.utf8ByteSize = size then some (Bytes.ofText t) else none
    | .array items _, .array xs => (xs.mapM (write? ds depth items)).map block
    | .map values _, .object ms => do
      return block (← ms.mapM fun (k, x) => do
        return counted (Bytes.ofText k) ++ (← write? ds depth values x))
    | .record _ fields _, .object ms =>
      if ms.all fun m => fields.any fun f => isMember f.1 m then
        fields? (write? ds depth) ms fields
      else none
    | s, .number (.int n) => do
      if fits (← integerBits? s) n then some (long n) else none
    | _, _ => none

/-- More than the nesting of any JSON text. -/
def maxDepth : Nat := 256

end ObjectFeed.Avro.Writer
