import ObjectFeed.Error
import ObjectFeed.Record

/-!
# Chunks of bytes

An object is cut into chunks of a fixed size; only the last one may be shorter. The size is taken to
be one that a buffer can have. Sizes from 2^63 on are none, and the settings do not refuse them, so
with such a size the program stops at the first read, which is not modelled.

* `Chunks.next`: the next chunk.
-/

namespace ObjectFeed

/-- An object that is read in chunks. -/
structure Chunks where
  size : Nat
  body : Body

/-- The next chunk, or nothing at the end. -/
def Chunks.next (d : Chunks) : Except DecodeError (Option Record) × Chunks :=
  match d.body.readFull d.size with
  | (.error m, body) => (.error (.readBytes m), { d with body })
  | (.ok [], body) => (.ok none, { d with body })
  | (.ok (x :: b), body) => (.ok (some { payload := .bytes (x :: b) }), { d with body })

end ObjectFeed
