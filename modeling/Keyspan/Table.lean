import Keyspan.Store.Append
import Keyspan.Store.Eviction
import Keyspan.Store.Seek
import Keyspan.Txn.Visibility

set_option autoImplicit false
set_option relaxedAutoImplicit false

namespace Keyspan

structure ScanStats where
  /-- Records that forward walks stepped over because nothing in them was visible. -/
  nextSkips : Nat := 0
  prevSkips : Nat := 0
  /-- Walks stopped by a bound. -/
  boundExits : Nat := 0
  /-- Walks started at a bound rather than at an end of the table. -/
  boundSeeks : Nat := 0
  /-- Searches for a leading part that met a larger key without it. -/
  leadStops : Nat := 0
  deriving DecidableEq, Repr

/-- A table: its key format, its records, its transactions and its counters. -/
structure Table where
  format : Format
  store : Store
  ledger : Ledger := {}
  scans : ScanStats := {}
  nextCursor : Nat := 1

/-- Table calls. What a call changed before it failed stays changed. -/
abbrev TableM := EStateM Error Table

namespace Table

def empty (format : Format) (paging : Paging) : Table where
  format := format
  store := Store.empty (.typed format) paging

/-- A table without records whose key format is spelled out. -/
def create (format : String) (paging : Paging) : Except Error Table := do
  pure (empty (← Format.ofText format) paging)

def onStore {α : Type} (call : StoreM α) : TableM α := fun t =>
  match call.run t.store with
  | .ok x s => .ok x { t with store := s }
  | .error fault s => .error (.ofImage fault) { t with store := s }

def begin (ignorePrepare : Bool) : TableM Transaction := do
  let t ← get
  let (txn, ledger) := t.ledger.begin ignorePrepare
  set { t with ledger := ledger }
  pure txn

def move (txn : Transaction) (target : TxnState) : TableM Unit := do
  let t ← get
  match t.ledger.move txn target with
  | .ok ledger => set { t with ledger := ledger }
  | .error e => throw e

/-- Appends an update by a transaction that may write: an active one with a number. -/
def writeIn (txn : Transaction) (packed : Bytes) (value : Option Bytes) : TableM Unit := do
  let state := (← get).ledger.state txn
  if txn.id = 0 ∨ state ≠ .active then
    throw (.invalidArgument (.cannotWrite txn.id state))
  onStore (Store.append packed ⟨txn.id, value⟩)

def writeAlone (packed : Bytes) (value : Option Bytes) : TableM Unit := do
  let txn ← begin false
  try onStore (Store.append packed ⟨txn.id, value⟩)
  catch e =>
    move txn .aborted
    throw e
  move txn .committed

def write (txn : Option Transaction) (key : Key) (value : Option Bytes) : TableM Unit := do
  match (← get).format.packKey key with
  | .error e => throw e
  | .ok packed =>
    match txn with
    | some txn => writeIn txn packed value
    | none => writeAlone packed value

def insert (txn : Option Transaction) (key : Key) (value : Bytes) : TableM Unit :=
  write txn key (some value)

def remove (txn : Option Transaction) (key : Key) : TableM Unit :=
  write txn key none

/-- Inserts pairs, each in a transaction of its own, up to the first that fails. -/
def load : List (Key × Bytes) → TableM Unit
  | [] => pure ()
  | (key, value) :: rest => do
    insert none key value
    load rest

end Table

end Keyspan
