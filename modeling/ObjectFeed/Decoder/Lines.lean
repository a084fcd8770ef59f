import ObjectFeed.Error
import ObjectFeed.Json.Reader
import ObjectFeed.Record
import ObjectFeed.Text.Blank

/-!
# Lines of JSON

Every line that is not blank is one JSON value. Lines end at a newline, are numbered from 1, blank
ones included, and lose the blank characters at both ends before they are read. With envelopes,
each value is an object of a schema and a payload.

* `Lines.next`: the record of the next line that is not blank.
* `Lines.unwrap`: the record in an envelope.
-/

namespace ObjectFeed

/-- An object that is read line by line. -/
structure Lines where
  body : Body
  envelopes : Bool
  /-- The lines that were read. -/
  number : Nat := 0

namespace Lines

/-- The record in an envelope; a schema is kept as its text, and null is no schema. -/
def unwrap (line : Nat) : Json → Except DecodeError Record
  | .object ms =>
    match Members.get? "schema" ms, Members.get? "payload" ms with
    | some .null, some payload => .ok { payload := .structured payload }
    | some schema, some payload => .ok { schema := schema.compact, payload := .structured payload }
    | _, _ => .error (.incompleteEnvelope line)
  | _ => .error (.notEnvelope line)

/-- The record of a value. -/
def convert (envelopes : Bool) (line : Nat) (v : Json) : Except DecodeError Record :=
  if envelopes then unwrap line v else .ok { payload := .structured v }

/-- The record of a line without its ends, which is not blank. -/
def parseLine (envelopes : Bool) (line : Nat) (text : List Char) : Except DecodeError Record :=
  match Json.parse text with
  | .error e => .error (.parseLine line (String.ofList text) e)
  | .ok v => convert envelopes line v

/-- The record of a line of bytes; a blank line has none. -/
def readRecord (envelopes : Bool) (line : Nat) (bytes : Bytes) :
    Except DecodeError (Option Record) :=
  match Bytes.text? bytes with
  | none => .error (.readLine line invalidText)
  | some s =>
    let text := Text.trim s.toList
    if text.isEmpty then .ok none else (parseLine envelopes line text).map some

/-- The record of the next line that is not blank, or nothing at the end. -/
def next (d : Lines) : Except DecodeError (Option Record) × Lines :=
  match _h : d.body.readLine with
  | (.error m, body) => (.error (.readLine (d.number + 1) m), { d with body })
  | (.ok [], body) => (.ok none, { d with body })
  | (.ok (x :: line), body) =>
    let d' := { d with body, number := d.number + 1 }
    match readRecord d.envelopes d'.number (x :: line) with
    | .error e => (.error e, d')
    | .ok (some r) => (.ok (some r), d')
    | .ok none => next d'
termination_by d.body.size
decreasing_by
  have := Body.size_readLine _h
  simp only [List.length_cons] at this
  omega

end Lines

end ObjectFeed
