import Keyspan.Cursor.Basic
import Keyspan.Table

set_option autoImplicit false
set_option relaxedAutoImplicit false

namespace Keyspan

structure Scan where
  cursor : Cursor
  table : Table

/-- Cursor calls. What a call changed before it failed stays changed. -/
abbrev ScanM := EStateM Error Scan

namespace Direction

def start (dir : Direction) (b : Bounds) : Option Bound :=
  match dir with
  | forward => b.lower
  | backward => b.upper

def admits (dir : Direction) (f : Format) (b : Bounds) (key : Bytes) : Bool :=
  match dir with
  | forward => b.admitsForward f key
  | backward => b.admitsBackward f key

/-- Whether `key` is within the bound that a walk starts from. -/
def reaches (dir : Direction) (f : Format) (b : Bounds) (key : Bytes) : Bool :=
  match dir with
  | forward => b.admitsBackward f key
  | backward => b.admitsForward f key

/-- The record next to `key`. -/
def beyond (dir : Direction) (key : Bytes) : Seek :=
  match dir with
  | forward => .after key
  | backward => .before key

def atOrBeyond (dir : Direction) (key : Bytes) : Seek :=
  match dir with
  | forward => .atOrAfter key
  | backward => .atOrBefore key

def ofBound (dir : Direction) (bound : Bound) : Seek :=
  if bound.inclusive then dir.atOrBeyond bound.key else dir.beyond bound.key

/-- The record at the end of the table where a walk starts. -/
def outermost : Direction → Seek
  | forward => .first
  | backward => .last

end Direction

namespace ScanStats

def skip (s : ScanStats) : Direction → ScanStats
  | .forward => { s with nextSkips := s.nextSkips + 1 }
  | .backward => { s with prevSkips := s.prevSkips + 1 }

end ScanStats

inductive Catch
  | held (h : Held)
  /-- A record that the hunt may not pass. -/
  | barred (r : Record)
  | nothing
  deriving DecidableEq, Repr

namespace Scan

def onStore {α : Type} (call : StoreM α) : ScanM α := fun s =>
  match (Table.onStore call).run s.table with
  | .ok x t => .ok x { s with table := t }
  | .error e t => .error e { s with table := t }

def count (f : ScanStats → ScanStats) : ScanM Unit :=
  modify fun s => { s with table.scans := f s.table.scans }

def place (p : Place) : ScanM Unit :=
  modify fun s => { s with cursor.place := p }

/-- The transaction that the cursor reads through: its own while that runs, otherwise a fresh view of
everything committed. -/
def reader (s : Scan) : Transaction :=
  match s.cursor.txn with
  | some txn => if (s.table.ledger.state txn).isRunning then txn else s.table.ledger.implicit
  | none => s.table.ledger.implicit

/-- Refuses a call while the cursor's own transaction is prepared. -/
def requireUnprepared (call : Positioning) : ScanM Unit := do
  let s ← get
  if let some txn := s.cursor.txn then
    if s.table.ledger.state txn = .prepared then throw (.preparedTransaction call)

def requireStaged : ScanM Bytes := do
  match (← get).cursor.staged with
  | some key => pure key
  | none => throw .keyNotSet

def conflict (s : Scan) (key : Bytes) : Error :=
  .preparedConflict (s.table.format.describe key)

/-- Hunts in one direction for a record that is visible to `reader`, over records that are not, as
long as `onward` lets it pass. The first number bounds the seeks. -/
def hunt (dir : Direction) (reader : Transaction) (onward : Bytes → Bool) :
    Nat → Seek → ScanM Catch
  | 0, _ => pure .nothing
  | fuel + 1, m => do
    match ← onStore (Store.seek m) with
    | none => pure .nothing
    | some r =>
      if onward r.key then
        let s ← get
        match s.table.ledger.resolve reader r.versions with
        | .value b => pure (.held ⟨r.key, b⟩)
        | .hidden => do
          count (·.skip dir)
          hunt dir reader onward fuel (dir.beyond r.key)
        | .conflict => throw (s.conflict r.key)
      else pure (.barred r)

/-- More seeks than a hunt can make: one for each record and one past the last. -/
def huntLimit (s : Scan) : Nat :=
  s.table.store.recordLimit + 1

/-- Lands on a record. The entry is decoded before anything is changed. -/
def land (h : Held) : ScanM Entry := do
  let s ← get
  match s.table.format.unpackKey h.key with
  | .error e => throw e
  | .ok key =>
    if s.cursor.options.releaseEvict then onStore (Store.release h.key)
    place (.on h)
    pure ⟨key, h.value⟩

end Scan

end Keyspan
