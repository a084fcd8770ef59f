import ObjectFeed.Store

/-!
# Stores in memory

Stores that keep what they hold and every request they got, and that can be told to fail.

* `MemoryObjects`: buckets of objects; listings are in key order and page by page, and a token
  names the last key of the page before.
* `MemoryOffsets`: progress under identities.
* `ScriptedPages`: a store that answers listing requests from a list of pages.
-/

namespace ObjectFeed

/-- The first of the queued errors in place of an outcome. -/
def replaceOutcome {α : Type} (queued : List StoreError) (r : Except StoreError α) :
    Except StoreError α × List StoreError :=
  match queued with
  | [] => (r, [])
  | e :: es => (.error e, es)

/-- An object store in memory. -/
structure MemoryObjects where
  buckets : Dict (Dict Body) := ∅
  listLog : List ListRequest := []
  fetchLog : List String := []
  /-- The next listings that fail. -/
  listFailures : Nat := 0
  /-- Errors that replace the outcomes of the next listings. -/
  queued : List StoreError := []
  /-- The keys whose next fetch fails. -/
  fetchFailures : Dict ErrorKind := ∅
  opened : Nat := 0
  closed : Nat := 0

namespace MemoryObjects

/-- Stores an object, in place of another one under the same key. -/
def put (s : MemoryObjects) (bucket key : String) (body : Body) : MemoryObjects :=
  { s with buckets := s.buckets.insert bucket (((s.buckets.get? bucket).getD ∅).insert key body) }

/-- The text before the key in a token. -/
def tokenMark : String := "after:"

/-- The key in a token. -/
def keyOfToken? (token : String) : Option String :=
  if tokenMark.toList.isPrefixOf token.toList then
    some (String.ofList (token.toList.drop tokenMark.length))
  else none

/-- The page size of requests that set none. -/
def defaultPageSize : Nat := 1000

/-- The key starts with the text, if there is one. -/
def startsWith (keyPrefix : Option String) (key : String) : Bool :=
  match keyPrefix with
  | none => true
  | some p => p.toList.isPrefixOf key.toList

/-- The key comes after another one, if there is one. -/
def isAfter (after : Option String) (key : String) : Bool :=
  match after with
  | none => true
  | some a => a < key

/-- The objects of a bucket that a request asks for. -/
def matching (objects : Dict Body) (keyPrefix after : Option String) : List Summary :=
  (objects.members.filter fun m => startsWith keyPrefix m.1 && isAfter after m.1).map
    fun m => ⟨m.1, m.2.size⟩

/-- The first objects of a listing, with a token if there are more. -/
def page (maxKeys : Nat) (found : List Summary) : Page :=
  let n := if maxKeys = 0 then defaultPageSize else maxKeys
  let objects := found.take n
  ⟨objects,
    if n < found.length then objects.getLast?.map fun s => tokenMark ++ s.key else none⟩

/-- The answer of a store that is not told to fail. -/
def answer (s : MemoryObjects) (r : ListRequest) : Except StoreError Page := do
  if r.token.isSome && r.startAfter.isSome then
    throw { kind := .invalidInput,
            message := "continuation token and start-after are mutually exclusive" }
  let after ← match r.token with
    | none => pure r.startAfter
    | some token =>
      match keyOfToken? token with
      | some key => pure (some key)
      | none =>
        throw { kind := .invalidInput, message := "Malformed continuation token " ++ token }
  match s.buckets.get? r.bucket with
  | none => throw { kind := .notFound, message := "Bucket " ++ r.bucket ++ " not found" }
  | some objects => pure (page r.maxKeys (matching objects r.keyPrefix after))

/-- A listing by a store that may be told to fail. -/
def list (s : MemoryObjects) (r : ListRequest) : Except StoreError Page × MemoryObjects :=
  let outcome := match s.listFailures with
    | 0 => s.answer r
    | _ + 1 => .error { kind := .network, message := "Listing of " ++ r.bucket ++ " failed" }
  let (outcome, queued) := replaceOutcome s.queued outcome
  (outcome,
    { s with listLog := s.listLog ++ [r], listFailures := s.listFailures - 1, queued })

/-- A fetch; a body that is handed out counts as opened. -/
def fetch (s : MemoryObjects) (bucket key : String) : Except StoreError Body × MemoryObjects :=
  let s := { s with fetchLog := s.fetchLog ++ [key] }
  match s.fetchFailures.get? key with
  | some kind =>
    (.error { kind, message := "Fetch of " ++ bucket ++ "/" ++ key ++ " failed" },
      { s with fetchFailures := s.fetchFailures.erase key })
  | none =>
    match (s.buckets.get? bucket).bind (·.get? key) with
    | some body => (.ok body, { s with opened := s.opened + 1 })
    | none =>
      (.error { kind := .notFound,
                message := "Object " ++ bucket ++ "/" ++ key ++ " not found" }, s)

instance : ObjectStore MemoryObjects where
  list := list
  fetch := fetch
  release s := { s with closed := s.closed + 1 }

end MemoryObjects

/-- An offset store in memory. -/
structure MemoryOffsets where
  entries : List (Properties × Properties) := []
  /-- The lookups so far, failed ones included. -/
  queries : Nat := 0
  /-- The next lookups that fail. -/
  failures : Nat := 0
  /-- Errors that replace the outcomes of the next lookups. -/
  queued : List StoreError := []

namespace MemoryOffsets

/-- Persists properties under an identity, in place of earlier ones. -/
def put (s : MemoryOffsets) (identity properties : Properties) : MemoryOffsets :=
  { s with
    entries := s.entries.filter (fun e => !e.1.same identity) ++ [(identity, properties)] }

/-- A lookup by a store that may be told to fail. -/
def lookup (s : MemoryOffsets) (identity : Properties) :
    Except StoreError (Option Properties) × MemoryOffsets :=
  let outcome := match s.failures with
    | 0 => .ok ((s.entries.find? fun e => e.1.same identity).map (·.2))
    | _ + 1 => .error { kind := .network, message := "Offset lookup failed" }
  let (outcome, queued) := replaceOutcome s.queued outcome
  (outcome, { s with queries := s.queries + 1, failures := s.failures - 1, queued })

instance : OffsetStore MemoryOffsets where
  lookup := lookup

end MemoryOffsets

/-- An object store that answers the listing requests in turn, whatever they ask. -/
structure ScriptedPages where
  pages : List (Except StoreError Page)
  listLog : List ListRequest := []

namespace ScriptedPages

/-- The next page; after the last one, pages without objects. -/
def list (s : ScriptedPages) (r : ListRequest) : Except StoreError Page × ScriptedPages :=
  match s.pages with
  | [] => (.ok ⟨[], none⟩, { s with listLog := s.listLog ++ [r] })
  | p :: ps => (p, { s with pages := ps, listLog := s.listLog ++ [r] })

instance : ObjectStore ScriptedPages where
  list := list
  fetch s bucket key :=
    (.error { kind := .notFound,
              message := "Object " ++ bucket ++ "/" ++ key ++ " not found" }, s)
  release s := s

end ScriptedPages

end ObjectFeed
