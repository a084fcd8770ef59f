import ObjectFeed.Avro.Schema
import ObjectFeed.Json.Printer

/-!
# Canonical form of Avro schemas

The text of a schema that has only what matters for its data: names are full, primitive types
are their names, members come in a fixed order, and documentation, aliases, defaults and logical
types are left out. A type that was written once is its name afterwards.

* `Schema.canonical`: the canonical form.
-/

namespace ObjectFeed.Avro

/-- The members that are written, in their order. -/
def canonicalOrder : List String :=
  ["name", "type", "fields", "symbols", "items", "values", "size", "order", "precision", "scale"]

/-- The members that have numbers. -/
def numericMembers : List String := ["size", "precision", "scale"]

/-- The full name of the type that a JSON form defines. -/
def definedName (ms : Members Json) : Option String :=
  let type := (ms.get? "type").bind Json.text?
  if type = some "record" ∨ type = some "enum" ∨ type = some "fixed" then
    let space := match (ms.get? "namespace").bind Json.text? with
      | some s => s ++ "."
      | none => ""
    some (space ++ ((ms.get? "name").bind Json.text?).getD "")
  else none

/-- The number in a member. -/
def numericChars : Json → List Char
  | .string s => s.toList
  | .number n => n.chars
  | _ => []

/-- The written members, in order. -/
def arrange (ms : List (String × List Char)) : List Char :=
  let inOrder := canonicalOrder.filterMap fun k =>
    (Members.get? k ms).map fun v => Json.stringChars k ++ ':' :: v
  '{' :: Json.joined inOrder ++ ['}']

mutual

/-- The canonical form of a JSON form, after the types that were written before. -/
def canonicalFrom (written : List String) : Json → List Char × List String
  | .string s => (Json.stringChars s, written)
  | .array xs =>
    let (parts, written) := canonicalList written xs
    ('[' :: Json.joined parts ++ [']'], written)
  | .object ms =>
    let name := definedName ms
    if (name.map written.contains).getD false then (Json.stringChars (name.getD ""), written)
    else
      let written := match name with
        | some n => n :: written
        | none => written
      match ms with
      | [("type", .string s)] => (Json.stringChars s, written)
      | ms =>
        let (parts, written) := canonicalMembers name written ms
        (arrange parts, written)
  | _ => ([], written)

/-- The canonical forms of a list. -/
def canonicalList (written : List String) : List Json → List (List Char) × List String
  | [] => ([], written)
  | x :: xs =>
    let (part, written) := canonicalFrom written x
    let (parts, written) := canonicalList written xs
    (part :: parts, written)

/-- The canonical forms of the members that are written. -/
def canonicalMembers (name : Option String) (written : List String) :
    List (String × Json) → List (String × List Char) × List String
  | [] => ([], written)
  | (k, x) :: ms =>
    if !canonicalOrder.contains k then canonicalMembers name written ms
    else if k = "name" ∧ name.isSome then
      let (parts, written) := canonicalMembers name written ms
      ((k, Json.stringChars (name.getD "")) :: parts, written)
    else if numericMembers.contains k then
      let (parts, written) := canonicalMembers name written ms
      ((k, numericChars x) :: parts, written)
    else
      let (part, written) := canonicalFrom written x
      let (parts, written) := canonicalMembers name written ms
      ((k, part) :: parts, written)

end

/-- The canonical form of a schema. -/
def Schema.canonical (s : Schema) : String := String.ofList (canonicalFrom [] s.json).1

end ObjectFeed.Avro
