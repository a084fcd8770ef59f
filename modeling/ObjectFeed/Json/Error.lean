import ObjectFeed.Json.Printer
import ObjectFeed.Text.Quoted

/-!
# JSON errors

Why a text is refused, and where. A place is a line, counted from 1, and the number of bytes of
that line before it.

* `Reason`: the causes; `Reason.message`: their wording.
* `Error`: a cause with a place; `Error.message`: its wording.
-/

namespace ObjectFeed.Json

/-- A place in a text. -/
structure Place where
  line : Nat := 1
  column : Nat := 0
deriving DecidableEq, Repr

namespace Place

/-- The place after a number of the bytes of a character. -/
def step (p : Place) (c : Char) (bytes : Nat) : Place :=
  if c = '\n' then ⟨p.line + 1, 0⟩ else ⟨p.line, p.column + bytes⟩

/-- The place after a number of bytes of a text. -/
def advance : Place → List Char → (bytes : Nat) → Place
  | p, [], _ => p
  | p, c :: cs, bytes =>
    if bytes = 0 then p
    else (p.step c (min bytes c.utf8Size)).advance cs (bytes - c.utf8Size)

end Place

/-- A value that was found where a value of another type was expected. -/
inductive Found where
  | null
  | bool (b : Bool)
  | number (n : Number)
  | string (s : String)
  | array
  | object
deriving DecidableEq, Repr

/-- The kind of a value and the value itself, if it has a short form. -/
def Found.describe : Found → String
  | .null => "null"
  | .bool true => "boolean `true`"
  | .bool false => "boolean `false`"
  | .number (.int n) => "integer `" ++ toString n ++ "`"
  | .number (.float x) => "floating point `" ++ x.text ++ "`"
  | .string s => "string " ++ Text.quoted s
  | .array => "sequence"
  | .object => "map"

/-- The names of a choice, quoted and joined. -/
def choices : List String → String
  | [] => ""
  | [a] => "`" ++ a ++ "`"
  | [a, b] => "`" ++ a ++ "` or `" ++ b ++ "`"
  | names => "one of " ++ ", ".intercalate (names.map fun a => "`" ++ a ++ "`")

/-- The causes for which a text is refused. -/
inductive Reason where
  | listEnds
  | objectEnds
  | stringEnds
  | valueEnds
  | colonExpected
  | listCommaExpected
  | objectCommaExpected
  | identExpected
  | valueExpected
  | invalidEscape
  | invalidNumber
  | numberOutOfRange
  | controlCharacter
  | keyNotString
  | loneSurrogate
  | trailingComma
  | trailingCharacters
  | hexEscapeEnds
  | tooDeep
  | wrongType (found : Found) (expected : String)
  | wrongValue (n : Int) (expected : String)
  | unknownName (name : String) (names : List String)
  | repeatedField (name : String)
deriving DecidableEq, Repr

/-- The wording of a cause. -/
def Reason.message : Reason → String
  | .listEnds => "EOF while parsing a list"
  | .objectEnds => "EOF while parsing an object"
  | .stringEnds => "EOF while parsing a string"
  | .valueEnds => "EOF while parsing a value"
  | .colonExpected => "expected `:`"
  | .listCommaExpected => "expected `,` or `]`"
  | .objectCommaExpected => "expected `,` or `\x7d`"
  | .identExpected => "expected ident"
  | .valueExpected => "expected value"
  | .invalidEscape => "invalid escape"
  | .invalidNumber => "invalid number"
  | .numberOutOfRange => "number out of range"
  | .controlCharacter => "control character (\\u0000-\\u001F) found while parsing a string"
  | .keyNotString => "key must be a string"
  | .loneSurrogate => "lone leading surrogate in hex escape"
  | .trailingComma => "trailing comma"
  | .trailingCharacters => "trailing characters"
  | .hexEscapeEnds => "unexpected end of hex escape"
  | .tooDeep => "recursion limit exceeded"
  | .wrongType found expected => "invalid type: " ++ found.describe ++ ", expected " ++ expected
  | .wrongValue n expected =>
    "invalid value: integer `" ++ toString n ++ "`, expected " ++ expected
  | .unknownName name names =>
    "unknown variant `" ++ name ++ "`, expected " ++ choices names
  | .repeatedField name => "duplicate field `" ++ name ++ "`"

/-- A cause and its place. -/
structure Error where
  reason : Reason
  place : Place
deriving DecidableEq, Repr

/-- The wording of an error. -/
def Error.message (e : Error) : String :=
  e.reason.message ++ " at line " ++ toString e.place.line ++ " column " ++
    toString e.place.column

end ObjectFeed.Json
