import ObjectFeed.Avro.Schema
import ObjectFeed.Bytes
import ObjectFeed.Text.Uuid

/-!
# Defaults of fields

The default of a field is a JSON value that its type must admit: integers widen to longer and to
binary numbers, texts stand for bytes too, and of a union any branch may admit the value. Types
of decimals and durations admit none.

* `Schema.admits`: a type admits a value.
-/

namespace ObjectFeed.Avro.Schema

/-- A value that stands for an integer of the bits; what 64 bits hold only without a sign wraps. -/
def isInteger (bits : Nat) (v : Json) : Bool :=
  match v with
  | .number (.int n) =>
    let m : Int := if n < pow2 63 then n else n - pow2 64
    decide (-(pow2 (bits - 1) : Int) ≤ m ∧ m < pow2 (bits - 1))
  | _ => false

/-- The texts that stand for numbers which are not finite. -/
def specialNumbers : List String := ["NaN", "INF", "-INF", "Infinity", "-Infinity"]

/-- A value that stands for a binary number. -/
def isBinary : Json → Bool
  | .number _ => true
  | .string s => specialNumbers.contains s
  | _ => false

/-- A value that stands for bytes. -/
def isBytes : Json → Bool
  | .string _ => true
  | .array xs => xs.all fun x => (x.natural? 8).isSome
  | _ => false

/-- A text of a number of bytes. -/
def isTextOf (size : Nat) : Json → Bool
  | .string s => s.utf8ByteSize == size
  | _ => false

/-- A type admits a value; `depth` bounds how often a name or a nested default is followed. -/
def admits (ds : Definitions) : (depth : Nat) → (space : Option String) → Schema → Json → Bool
  | 0, _, _, _ => false
  | depth + 1, space, s, v =>
    match s with
    | .null => (v matches .null)
    | .boolean => (v matches .bool _)
    | .int => isInteger 32 v
    | .long => isInteger 64 v
    | .float | .double => isBinary v
    | .bytes => isBytes v
    | .string => (v matches .string _)
    | .array items _ =>
      match v with
      | .array xs => xs.all (admits ds depth space items)
      | _ => false
    | .map values _ =>
      match v with
      | .object ms => ms.all fun m => admits ds depth space values m.2
      | _ => false
    | .union branches => branches.any fun b => admits ds depth space b v
    | .record n fields _ =>
      let space := (n.qualify space).space
      match v with
      | .object ms =>
        fields.all fun f =>
          match Members.get? f.1.name ms <|> f.1.default with
          | some x => admits ds depth space f.2 x
          | none => false
      | _ => false
    | .enum _ symbols default _ =>
      match v with
      | .string t => symbols.contains t || default.isSome
      | _ => false
    | .fixed _ size _ => isTextOf size v
    | .integer k => isInteger (if k.isShort then 32 else 64) v
    | .uuid =>
      match v with
      | .string t => (Text.Uuid.ofText? t).isSome
      | _ => false
    | .decimal .. | .bigDecimal | .duration => false
    | .ref n =>
      let n := n.qualify space
      match ds.lookup n with
      | some s => admits ds depth n.space s v
      | none => false

/-- The namespace in which a field's own default is looked at. -/
def ownSpace : Schema → Option String
  | .record n .. | .enum n .. | .fixed n .. | .ref n => n.space
  | _ => none

end ObjectFeed.Avro.Schema
