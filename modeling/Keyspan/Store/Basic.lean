import Keyspan.Front
import Keyspan.Key.Order
import Keyspan.Page.Basic

set_option autoImplicit false
set_option relaxedAutoImplicit false

namespace Keyspan

structure Paging where
  codec : Codec
  /-- The records a page holds before it splits. Below 2 it acts as 2. -/
  capacity : Nat := 64
  compression : Compression := .snappy
  /-- Whether the check of an image is compared when its page comes back. -/
  verify : Bool := true

structure StoreStats where
  /-- Records handed out by seeks. -/
  visited : Nat := 0
  evictions : Nat := 0
  reloads : Nat := 0
  deriving DecidableEq, Repr

/-- An order, the pages in that order, and what was counted so far. -/
structure Store where
  order : KeyOrder
  paging : Paging
  pages : List Page := []
  stats : StoreStats := {}

/-- Storage calls. What a call changed before it failed stays changed. -/
abbrev StoreM := EStateM ImageFault Store

namespace Store

def empty (order : KeyOrder) (paging : Paging) : Store where
  order := order
  paging := paging

abbrev codec (s : Store) : Codec :=
  s.paging.codec

def pageLimit (s : Store) : Nat :=
  max s.paging.capacity 2

def recordLimit (s : Store) : Nat :=
  s.pages.length * s.pageLimit

def residentPages (s : Store) : Nat :=
  s.pages.countP Page.isResident

/-- The index of the page whose range covers `key`, the first page for keys below all pages. -/
def pageFor (s : Store) (key : Bytes) : Nat :=
  Front.length (fun p => (s.order.compare p.first key).isLE) s.pages - 1

def evictPage (i : Nat) : StoreM Bool := do
  let s ← get
  match s.pages[i]? with
  | none => pure false
  | some page =>
    match page.evict? s.codec s.paging.compression with
    | .error fault => throw fault
    | .ok none => pure false
    | .ok (some evicted) =>
      set { s with
        pages := s.pages.set i evicted
        stats.evictions := s.stats.evictions + 1 }
      pure true

/-- Evicts the pages at some indices in turn. Answers how many were in memory. -/
def evictPages : List Nat → StoreM Nat
  | [] => pure 0
  | i :: rest => do
    let evicted ← evictPage i
    let count ← evictPages rest
    pure (evicted.toNat + count)

def evictAll : StoreM Nat := do
  evictPages (List.range (← get).pages.length)

/-- Evicts pages that random numbers pick, the given number of times or until no page is left in
memory. Answers how many were in memory. Past the end of the list every number is zero. -/
def evictPicked : Nat → List Nat → StoreM Nat
  | 0, _ => pure 0
  | n + 1, picks => do
    let s ← get
    if s.residentPages = 0 then pure 0
    else
      let evicted ← evictPage (picks.headD 0 % s.pages.length)
      let count ← evictPicked n picks.tail
      pure (evicted.toNat + count)

def evictContaining (key : Bytes) : StoreM Bool := do
  evictPage ((← get).pageFor key)

/-- Gives up the page whose range covers `key`. -/
def release (key : Bytes) : StoreM Unit := do
  let _ ← evictContaining key

/-- The records of the page at `i`, brought back into memory if need be. -/
def load (i : Nat) : StoreM (List Record) := do
  let s ← get
  match s.pages[i]? with
  | none => pure []
  | some page =>
    match page.reload? s.codec s.paging.verify with
    | .error fault => throw fault
    | .ok none => pure (page.records?.getD [])
    | .ok (some loaded) =>
      set { s with
        pages := s.pages.set i loaded
        stats.reloads := s.stats.reloads + 1 }
      pure (loaded.records?.getD [])

end Store

end Keyspan
