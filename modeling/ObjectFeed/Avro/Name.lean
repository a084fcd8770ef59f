/-!
# Names of Avro types

A name has a namespace or none. In a text the namespace precedes the name and a dot; without one
the enclosing namespace applies.

* `Name.ofText?`: the name in a text, which must be well-formed.
* `Name.qualify`: a name within an enclosing namespace.
* `Name.text`: the full name.
-/

namespace ObjectFeed.Avro

/-- The name of a type. -/
structure Name where
  base : String
  space : Option String := none
deriving DecidableEq, Repr

/-- A letter or an underscore, then letters, digits and underscores. -/
def isIdentifier : List Char → Bool
  | [] => false
  | c :: cs => (c.isAlpha || c == '_') && cs.all fun c => c.isAlphanum || c == '_'

/-- The parts of a text between dots. -/
def dotted : List Char → List (List Char)
  | [] => [[]]
  | c :: cs =>
    if c = '.' then [] :: dotted cs
    else
      match dotted cs with
      | [] => [[c]]
      | p :: ps => (c :: p) :: ps

/-- Identifiers with dots between them. -/
def isSpace (s : String) : Bool := (dotted s.toList).all isIdentifier

namespace Name

/-- The name in a text; an empty namespace is none. -/
def ofText? (s : String) : Option Name :=
  let parts := dotted s.toList
  match parts.getLast? with
  | none => none
  | some base =>
    if !isIdentifier base then none
    else
      match parts.dropLast with
      | [] => some { base := String.ofList base }
      | [[]] => some { base := String.ofList base }
      | spaces =>
        if spaces.all isIdentifier then
          some { base := String.ofList base,
                 space := ".".intercalate (spaces.map String.ofList) }
        else none

/-- The name within an enclosing namespace. -/
def qualify (n : Name) (enclosing : Option String) : Name :=
  { n with space := n.space <|> enclosing.filter (· ≠ "") }

/-- The full name. -/
def text (n : Name) : String :=
  match n.space with
  | none => n.base
  | some s => s ++ "." ++ n.base

end Name

end ObjectFeed.Avro
