import ObjectFeed.Proofs.Views

/-!
# Recorded listings

A store that keeps every listing request with its answer, so that theorems can speak of the pages
that a feed has received. Nobody who talks to the store can tell that it does.

* `Recorded`: a store and the exchanges so far.
* `Listing.next_store`: a listing does the same over the store itself.
* `Feed.pull_plain`: **recording changes nothing of what a feed does.**
-/

namespace ObjectFeed

/-- A listing request and its answer. -/
structure Exchange where
  request : ListRequest
  answer : Except StoreError Page

/-- The objects of the page, if there is one. -/
def Exchange.objects (x : Exchange) : List Summary :=
  match x.answer with
  | .ok p => p.objects
  | .error _ => []

/-- A store with the listing requests it got, in order. -/
structure Recorded (σ : Type) where
  store : σ
  exchanges : List Exchange := []

namespace Recorded

variable {σ : Type} [ObjectStore σ]

/-- The answer of the store, which is kept. -/
def list (s : Recorded σ) (r : ListRequest) : Except StoreError Page × Recorded σ :=
  match ObjectStore.list s.store r with
  | (answer, store) => (answer, ⟨store, s.exchanges ++ [⟨r, answer⟩]⟩)

/-- The body that the store hands out. -/
def fetch (s : Recorded σ) (bucket key : String) : Except StoreError Body × Recorded σ :=
  match ObjectStore.fetch s.store bucket key with
  | (body, store) => (body, { s with store })

instance : ObjectStore (Recorded σ) where
  list := list
  fetch := fetch
  release s := { s with store := ObjectStore.release s.store }

variable (s : Recorded σ)

theorem list_eq (r : ListRequest) : ObjectStore.list s r =
    ((ObjectStore.list s.store r).1,
      ⟨(ObjectStore.list s.store r).2,
        s.exchanges ++ [⟨r, (ObjectStore.list s.store r).1⟩]⟩) := rfl

theorem fetch_eq (bucket key : String) : ObjectStore.fetch s bucket key =
    ((ObjectStore.fetch s.store bucket key).1,
      { s with store := (ObjectStore.fetch s.store bucket key).2 }) := rfl

end Recorded

/-- With nothing in the buffer, a page that is received is all that is in it. -/
theorem Listing.buffer_accept {l : Listing} (h : l.buffer = []) (p : Page) :
    (l.accept p).buffer = p.objects := by
  unfold accept
  cases p.next <;> simp [h]

variable {σ τ : Type} [ObjectStore σ]

/-- A store answers as the recorded one does. -/
theorem Recorded.objectView : ObjectView (Recorded.store : Recorded σ → σ) :=
  ⟨fun _ _ => rfl, fun _ _ _ => rfl, fun _ => rfl⟩

theorem Listing.next_store (limit : Nat) (l : Listing) (s : Recorded σ) :
    l.next limit s.store =
      ((l.next limit s).1, (l.next limit s).2.1, (l.next limit s).2.2.store) :=
  next_view Recorded.objectView limit l s

/-- The world without the record of the listings. -/
def World.plain (w : World (Recorded σ) τ) : World σ τ :=
  { objects := w.objects.store, offsets := w.offsets, cache := w.cache }

/-- **A feed does the same over the store itself.** -/
theorem Feed.pull_plain [OffsetStore τ] (limit : Nat) (listed : Bool) (f : Feed)
    (w : World (Recorded σ) τ) :
    f.pull limit listed w.plain = ((f.pull limit listed w).1, (f.pull limit listed w).2.1,
      (f.pull limit listed w).2.2.plain) :=
  pull_view Recorded.objectView .refl limit listed f w

end ObjectFeed
