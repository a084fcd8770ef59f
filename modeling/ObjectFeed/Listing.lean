import ObjectFeed.Store

/-!
# Listings

A listing asks for a page when all items of the pages before have been delivered and one more is
wanted. The key to start after goes out with the first request only; later requests carry the
token of the page before. A failed request is delivered as an item and ends the listing.

* `Lister`: what is listed; `Lister.start` begins a listing without a request.
* `Listing.step`: one step, which delivers, ends, or asks for a page.
* `Listing.next`: the next item.
-/

namespace ObjectFeed

/-- A listing in progress. -/
structure Listing where
  /-- The next request. -/
  request : ListRequest
  /-- Objects that were received and not yet delivered. -/
  buffer : List Summary := []
  /-- There is no further request. -/
  done : Bool := false
deriving DecidableEq, Repr

/-- What is listed: the objects of a bucket whose keys have a common start. -/
structure Lister where
  bucket : String
  keyPrefix : Option String
  pageSize : Nat
deriving DecidableEq, Repr

/-- A listing of the keys after a given one. -/
def Lister.start (l : Lister) (startAfter : Option String) : Listing :=
  { request :=
      { bucket := l.bucket, keyPrefix := l.keyPrefix, maxKeys := l.pageSize, startAfter } }

namespace Listing

variable {σ : Type} [ObjectStore σ]

/-- The listing after a page. -/
def accept (l : Listing) (p : Page) : Listing :=
  let buffer := l.buffer ++ p.objects
  match p.next with
  | some token =>
    { l with buffer, request := { l.request with startAfter := none, token := some token } }
  | none => { l with buffer, request := { l.request with token := none }, done := true }

/-- The outcome of one step. -/
inductive Step where
  | item (s : Summary)
  | failed (e : StoreError)
  | ended
  | fetched

/-- One step: an object from the buffer, the end, or a request. -/
def step (l : Listing) (store : σ) : Step × Listing × σ :=
  match l.buffer with
  | s :: buffer => (.item s, { l with buffer }, store)
  | [] =>
    if l.done then (.ended, l, store)
    else
      match ObjectStore.list store l.request with
      | (.ok p, store) => (.fetched, l.accept p, store)
      | (.error e, store) => (.failed e, { l with done := true }, store)

/-- The next object or failure, or nothing at the end. A store can send any number of empty
pages; `limit` bounds the requests, and past it the listing counts as ended. -/
def next : (limit : Nat) → Listing → σ → Option (Except StoreError Summary) × Listing × σ
  | 0, l, store => (none, l, store)
  | limit + 1, l, store =>
    match l.step store with
    | (.item s, l, store) => (some (.ok s), l, store)
    | (.failed e, l, store) => (some (.error e), l, store)
    | (.ended, l, store) => (none, l, store)
    | (.fetched, l, store) => next limit l store

end Listing

end ObjectFeed
