import ObjectFeed.Json.Error

/-!
# Reading at a cursor

Readers of JSON texts are state transformers over a cursor, the text that is left and its place.
An error is placed at the cursor or one byte ahead of it.

* `Cursor`, `Reader`: the state and the transformers.
* `peek`, `next`, `expectWord`: what all readers are made of.
* `skipBlank`: the four blank characters of JSON.
-/

namespace ObjectFeed.Json

/-- The text that is left to read, and its place. -/
structure Cursor where
  rest : List Char
  place : Place := {}
deriving DecidableEq, Repr

/-- A reader returns a value and moves the cursor, or fails. -/
abbrev Reader (α : Type) := StateT Cursor (Except Error) α

namespace Reader

/-- A reader from its effect on the cursor. -/
def of {α : Type} (f : Cursor → Except Error (α × Cursor)) : Reader α := f

/-- Fails at the cursor. -/
def fail {α : Type} (r : Reason) : Reader α := of fun s => .error ⟨r, s.place⟩

/-- Fails one byte ahead of the cursor, or at the end of the text. -/
def failAhead {α : Type} (r : Reason) : Reader α := of fun s =>
  match s.rest with
  | [] => .error ⟨r, s.place⟩
  | c :: _ => .error ⟨r, s.place.step c 1⟩

/-- The next character, which stays. -/
def peek : Reader (Option Char) := of fun s => .ok (s.rest.head?, s)

/-- The place of the cursor. -/
def place : Reader Place := of fun s => .ok (s.place, s)

/-- Passes over the next character. -/
def skip : Reader Unit := of fun s =>
  match s.rest with
  | [] => .ok ((), s)
  | c :: cs => .ok ((), ⟨cs, s.place.step c c.utf8Size⟩)

/-- Passes over every character of a kind, and returns them. -/
def takeWhile (p : Char → Bool) : Reader (List Char) := of fun s =>
  let cs := s.rest.takeWhile p
  .ok (cs, ⟨s.rest.dropWhile p, cs.foldl (fun q c => q.step c c.utf8Size) s.place⟩)

/-- The blank characters of JSON. -/
def isBlank (c : Char) : Bool := c == ' ' || c == '\n' || c == '\t' || c == '\r'

/-- Passes over blank characters, and returns the character after them, which stays. -/
def skipBlank : Reader (Option Char) := do
  let _ ← takeWhile isBlank
  peek

/-- Fails unless the text goes on with the characters. -/
def expectWord : List Char → Reader Unit
  | [] => pure ()
  | w :: ws => do
    match ← peek with
    | none => fail .valueEnds
    | some c => if c = w then skip; expectWord ws else failAhead .identExpected

/-- Runs a reader on a whole text, after which only blank characters may follow. -/
def run {α : Type} (r : Reader α) (s : List Char) : Except Error α :=
  let whole : Reader α := do
    let x ← r
    match ← skipBlank with
    | none => pure x
    | some _ => failAhead .trailingCharacters
  (whole ⟨s, {}⟩).map (·.1)

end Reader

end ObjectFeed.Json
