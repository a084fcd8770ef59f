import ObjectFeed.Bytes
import ObjectFeed.Json

/-!
# Records

What the decoders make of an object: raw bytes or a structured value, which may come with a text
that describes it.
-/

namespace ObjectFeed

/-- The payload of a record. -/
inductive Payload where
  | bytes (b : Bytes)
  | structured (v : Json)

/-- A decoded record. -/
structure Record where
  schema : Option String := none
  payload : Payload

end ObjectFeed
