import ObjectFeed.Json.NumberReader

/-!
# Reading JSON values

A value is read by recursion on the nesting that is still allowed. Every loop is bounded by the
length of the text, which each of its rounds shortens.

* `Reader.string`: a string after its opening quote.
* `Reader.value`: a value, with at most 127 arrays and objects around one another.
* `Json.parse`: the value of a whole text.
* `Reader.skipValue`: passes over a value, however deep it is nested.
-/

namespace ObjectFeed.Json

/-- The value of a hexadecimal digit. -/
def hexValue? (c : Char) : Option Nat :=
  if c.isDigit then some (c.toNat - '0'.toNat)
  else if 'a' ≤ c ∧ c ≤ 'f' then some (c.toNat - 'a'.toNat + 10)
  else if 'A' ≤ c ∧ c ≤ 'F' then some (c.toNat - 'A'.toNat + 10)
  else none

/-- The number that four hexadecimal digits spell. -/
def hexQuad? (a b c d : Char) : Option Nat := do
  pure (4096 * (← hexValue? a) + 256 * (← hexValue? b) + 16 * (← hexValue? c) + (← hexValue? d))

/-- The character that a letter after a backslash stands for. -/
def unescape? (c : Char) : Option Char :=
  if c = '"' ∨ c = '\\' ∨ c = '/' then some c
  else if c = 'b' then some '\x08'
  else if c = 'f' then some '\x0c'
  else if c = 'n' then some '\n'
  else if c = 'r' then some '\r'
  else if c = 't' then some '\t'
  else none

/-- The units that only the first half of a pair has. -/
def isHighSurrogate (n : Nat) : Bool := 0xD800 ≤ n && n ≤ 0xDBFF

/-- The units that only the second half of a pair has. -/
def isLowSurrogate (n : Nat) : Bool := 0xDC00 ≤ n && n ≤ 0xDFFF

namespace Reader

/-- Four hexadecimal digits. The four bytes are passed over before they are looked at. -/
def hexEscape : Reader Nat := of fun s =>
  let after := s.place.advance s.rest 4
  match s.rest with
  | a :: b :: c :: d :: cs =>
    match hexQuad? a b c d with
    | some n => .ok (n, ⟨cs, after⟩)
    | none => .error ⟨.invalidEscape, after⟩
  | _ =>
    let size := (String.ofList s.rest).utf8ByteSize
    if size < 4 then .error ⟨.stringEnds, s.place.advance s.rest size⟩
    else .error ⟨.invalidEscape, after⟩

/-- One character of the second half of a surrogate pair. -/
def expectPairChar (w : Char) : Reader Unit := do
  match ← peek with
  | none => fail .stringEnds
  | some c => if c = w then skip else failAhead .hexEscapeEnds

/-- The character of a numeric escape, which may take a second one. -/
def unicodeEscape : Reader Char := do
  let n ← hexEscape
  if isLowSurrogate n then fail .loneSurrogate
  else if isHighSurrogate n then
    expectPairChar '\\'
    expectPairChar 'u'
    let m ← hexEscape
    if isLowSurrogate m then
      pure (Char.ofNat ((n - 0xD800) * 0x400 + (m - 0xDC00) + 0x10000))
    else fail .loneSurrogate
  else pure (Char.ofNat n)

/-- The character of an escape after its backslash. -/
def escape : Reader Char := do
  match ← peek with
  | none => fail .stringEnds
  | some 'u' => skip; unicodeEscape
  | some c =>
    match unescape? c with
    | some d => skip; pure d
    | none => failAhead .invalidEscape

/-- The rest of a string up to its closing quote, after the characters in `acc` (last first). -/
def stringRest : (limit : Nat) → (acc : List Char) → Reader String
  | 0, _ => fail .stringEnds
  | limit + 1, acc => do
    match ← peek with
    | none => fail .stringEnds
    | some '"' => skip; pure (String.ofList acc.reverse)
    | some '\\' =>
      skip
      let c ← escape
      stringRest limit (c :: acc)
    | some c =>
      if c.toNat < 0x20 then failAhead .controlCharacter
      else
        skip
        stringRest limit (c :: acc)

/-- A string after its opening quote. -/
def string (limit : Nat) : Reader String := stringRest (limit + 1) []

/-- What follows in a list: an element or the end. -/
def hasElement (first : Bool) : Reader Bool := do
  match ← skipBlank with
  | none => failAhead .listEnds
  | some ']' => pure false
  | some c =>
    if first then pure true
    else if c = ',' then
      skip
      match ← skipBlank with
      | none => fail .valueEnds
      | some ']' => failAhead .trailingComma
      | some _ => pure true
    else failAhead .listCommaExpected

/-- What follows in an object: a key or the end. -/
def hasKey (first : Bool) : Reader Bool := do
  match ← skipBlank with
  | none => fail .objectEnds
  | some '}' => pure false
  | some c =>
    let next ←
      if first then pure (some c)
      else if c = ',' then do skip; skipBlank
      else failAhead .objectCommaExpected
    match next with
    | none => fail .valueEnds
    | some '"' => pure true
    | some '}' => failAhead .trailingComma
    | some _ => failAhead .keyNotString

/-- The colon after a key. -/
def colon : Reader Unit := do
  match ← skipBlank with
  | none => fail .objectEnds
  | some ':' => skip
  | some _ => failAhead .colonExpected

/-- The elements of a list up to its end, which stays. -/
def elements {α : Type} (item : Reader α) : (limit : Nat) → (first : Bool) → Reader (List α)
  | 0, _ => pure []
  | limit + 1, first => do
    if ← hasElement first then
      let x ← item
      let xs ← elements item limit false
      pure (x :: xs)
    else pure []

/-- The members of an object up to its end, which stays. -/
def members (limit : Nat) (item : Reader Json) :
    (rounds : Nat) → (first : Bool) → (acc : List (String × Json)) → Reader (List (String × Json))
  | 0, _, acc => pure acc
  | rounds + 1, first, acc => do
    if ← hasKey first then
      skip
      let k ← string limit
      colon
      let x ← item
      members limit item rounds false (Members.insert k x acc)
    else pure acc

/-- Passes over the end of a list. -/
def endList : Reader Unit := do
  match ← skipBlank with
  | none => fail .listEnds
  | some ']' => skip
  | some ',' =>
    skip
    match ← skipBlank with
    | some ']' => failAhead .trailingComma
    | _ => failAhead .trailingCharacters
  | some _ => failAhead .trailingCharacters

/-- Passes over the end of an object. -/
def endObject : Reader Unit := do
  match ← skipBlank with
  | none => fail .objectEnds
  | some '}' => skip
  | some ',' => failAhead .trailingComma
  | some _ => failAhead .trailingCharacters

/-- A value, given the reader of the values nested in it, if any may be. -/
def valueWith (limit : Nat) (inner : Option (Reader Json)) : Reader Json := do
  match ← skipBlank with
  | none => fail .valueEnds
  | some 'n' => skip; expectWord ['u', 'l', 'l']; pure .null
  | some 't' => skip; expectWord ['r', 'u', 'e']; pure (.bool true)
  | some 'f' => skip; expectWord ['a', 'l', 's', 'e']; pure (.bool false)
  | some '-' => skip; return .number (← number limit true)
  | some '"' => skip; return .string (← string limit)
  | some '[' =>
    match inner with
    | none => failAhead .tooDeep
    | some item =>
      skip
      let xs ← elements item (limit + 1) true
      endList
      pure (.array xs)
  | some '{' =>
    match inner with
    | none => failAhead .tooDeep
    | some item =>
      skip
      let ms ← members limit item (limit + 1) true []
      endObject
      pure (.object ms)
  | some c => if c.isDigit then return .number (← number limit false) else failAhead .valueExpected

/-- A value in which arrays and objects nest at most `nested` deep. -/
def value (limit : Nat) : (nested : Nat) → Reader Json
  | 0 => valueWith limit none
  | nested + 1 => valueWith limit (some (value limit nested))

/-- Passes over a string after its opening quote; numeric escapes need not be characters. -/
def skipString : (limit : Nat) → Reader Unit
  | 0 => fail .stringEnds
  | limit + 1 => do
    match ← peek with
    | none => fail .stringEnds
    | some '"' => skip
    | some '\\' =>
      skip
      match ← peek with
      | none => fail .stringEnds
      | some 'u' =>
        skip
        let _ ← hexEscape
      | some c =>
        match unescape? c with
        | some _ => skip
        | none => failAhead .invalidEscape
      skipString limit
    | some c =>
      if c.toNat < 0x20 then fail .controlCharacter
      else
        skip
        skipString limit

/-- An array or an object whose end is still to come. -/
inductive Bracket where
  | list
  | object

/-- Passes over the key of the next member and its colon. -/
def skipKey (limit : Nat) : Reader Unit := do
  match ← skipBlank with
  | none => fail .objectEnds
  | some '"' =>
    skip
    skipString (limit + 1)
    colon
  | some _ => failAhead .keyNotString

/-- Passes over ends of brackets after an element, up to the next comma; `none` after the last
bracket. -/
def closeBrackets : (limit : Nat) → List Bracket → Reader (Option (List Bracket))
  | _, [] => pure none
  | 0, _ => pure none
  | limit + 1, b :: bs => do
    match ← skipBlank, b with
    | some ',', _ => skip; pure (some (b :: bs))
    | some ']', .list => skip; closeBrackets limit bs
    | some '}', .object => skip; closeBrackets limit bs
    | some _, .list => failAhead .listCommaExpected
    | some _, .object => failAhead .objectCommaExpected
    | none, .list => fail .listEnds
    | none, .object => fail .objectEnds

/-- The brackets open after an opening one; `none` after the last bracket. -/
def enterBracket (limit : Nat) (b : Bracket) (bs : List Bracket) :
    Reader (Option (List Bracket)) := do
  skip
  match ← skipBlank, b with
  | some ']', .list => skip; closeBrackets limit bs
  | some '}', .object => skip; closeBrackets limit bs
  | none, .list => fail .listEnds
  | none, .object => fail .objectEnds
  | some _, _ => pure (some (b :: bs))

/-- Passes over a value inside the brackets, and over all that follows to the end of the
outermost one. -/
def skipWithin (limit : Nat) : (rounds : Nat) → List Bracket → Reader Unit
  | 0, _ => pure ()
  | rounds + 1, bs => do
    match bs with
    | .object :: _ => skipKey limit
    | _ => pure ()
    let next ← do
      match ← skipBlank with
      | none => fail .valueEnds
      | some 'n' => skip; expectWord ['u', 'l', 'l']; closeBrackets limit bs
      | some 't' => skip; expectWord ['r', 'u', 'e']; closeBrackets limit bs
      | some 'f' => skip; expectWord ['a', 'l', 's', 'e']; closeBrackets limit bs
      | some '-' => skip; skipNumber; closeBrackets limit bs
      | some '"' => skip; skipString (limit + 1); closeBrackets limit bs
      | some '[' => enterBracket limit .list bs
      | some '{' => enterBracket limit .object bs
      | some c =>
        if c.isDigit then
          skipNumber
          closeBrackets limit bs
        else failAhead .valueExpected
    match next with
    | none => pure ()
    | some bs => skipWithin limit rounds bs

/-- Passes over a value. -/
def skipValue (limit : Nat) : Reader Unit := skipWithin limit (limit + 1) []

end Reader

/-- Arrays and objects nest at most this deep. -/
def maxNested : Nat := 127

/-- The value of a whole text. -/
def parse (s : List Char) : Except Error Json :=
  (Reader.value s.length maxNested).run s

end ObjectFeed.Json
