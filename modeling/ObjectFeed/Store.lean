import ObjectFeed.Assignment
import ObjectFeed.Body
import ObjectFeed.Json

/-!
# Stores

The two stores that a feed talks to. An object store lists and fetches objects; what it hands
out is released once it is no longer read. An offset store holds the progress of objects under
their identity.

* `StoreError`, `ErrorKind`: failures; `StoreError.isTransient` says which may clear up.
* `ListRequest`, `Page`: one round-trip of a listing.
* `ObjectStore`, `OffsetStore`: the operations.
-/

namespace ObjectFeed

/-- The kinds of failures of a store. -/
inductive ErrorKind where
  | authentication
  | authorization
  | notFound
  | invalidInput
  | network
  | timeout
  | serviceUnavailable
  | rateLimited
  | internalError
  | other
deriving DecidableEq, Repr, Inhabited

namespace ErrorKind

/-- The name of a kind. -/
def name : ErrorKind → String
  | .authentication => "Authentication"
  | .authorization => "Authorization"
  | .notFound => "NotFound"
  | .invalidInput => "InvalidInput"
  | .network => "Network"
  | .timeout => "Timeout"
  | .serviceUnavailable => "ServiceUnavailable"
  | .rateLimited => "RateLimited"
  | .internalError => "InternalError"
  | .other => "Other"

/-- All kinds. -/
def all : List ErrorKind :=
  [.authentication, .authorization, .notFound, .invalidInput, .network, .timeout,
    .serviceUnavailable, .rateLimited, .internalError, .other]

/-- The kind with a name. -/
def ofName? (s : String) : Option ErrorKind := all.find? (·.name == s)

/-- The same request may succeed if it is repeated. -/
def isTransient : ErrorKind → Bool
  | .network | .timeout | .serviceUnavailable | .rateLimited => true
  | _ => false

end ErrorKind

/-- A failure of a store. -/
structure StoreError where
  kind : ErrorKind
  message : String
  cause : Option String := none
deriving DecidableEq, Repr

namespace StoreError

/-- The wording of a failure. -/
def text (e : StoreError) : String := e.kind.name ++ ": " ++ e.message

/-- The same request may succeed if it is repeated. -/
def isTransient (e : StoreError) : Bool := e.kind.isTransient

end StoreError

/-- One round-trip of a listing. Only the first one of a listing may name the key to start
after, and only later ones have a token. -/
structure ListRequest where
  bucket : String
  keyPrefix : Option String := none
  maxKeys : Nat := 0
  token : Option String := none
  startAfter : Option String := none
deriving DecidableEq, Repr

/-- The answer to a listing request. -/
structure Page where
  objects : List Summary
  /-- Set if there are more pages. -/
  next : Option String
deriving DecidableEq, Repr

/-- A store of objects. -/
class ObjectStore (σ : Type) where
  /-- Answers a listing request. -/
  list : σ → ListRequest → Except StoreError Page × σ
  /-- Hands out the body of an object. -/
  fetch : σ → (bucket key : String) → Except StoreError Body × σ
  /-- Takes back a body that was handed out. -/
  release : σ → σ

/-- A store of persisted progress. -/
class OffsetStore (τ : Type) where
  /-- The properties stored under an identity. -/
  lookup : τ → Properties → Except StoreError (Option Properties) × τ

end ObjectFeed
