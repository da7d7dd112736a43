import Keyspan.Error
import Keyspan.Txn.Snapshot

/-!
The ledger of transactions: which numbers are handed out, which of them run, and which ended without
effect. A number that is handed out and in neither list belongs to a committed transaction, so
committed ones leave no trace.
-/

set_option autoImplicit false
set_option relaxedAutoImplicit false

namespace Keyspan

inductive Phase
  | active
  | prepared
  deriving DecidableEq, Repr

def Phase.state : Phase → TxnState
  | active => .active
  | prepared => .prepared

/-- The next number to hand out, the running transactions and the aborted ones. -/
structure Ledger where
  nextId : TxnId := 1
  running : List (TxnId × Phase) := []
  aborted : List TxnId := []
  deriving DecidableEq, Repr

/-- What a reader or writer holds of its transaction. An implicit one has no number: it reads one
snapshot and never changes state. -/
structure Transaction where
  id? : Option TxnId
  snapshot : Snapshot
  /-- Whether the prepared updates of others read as absent rather than as conflicts. -/
  ignorePrepare : Bool
  deriving DecidableEq, Repr

def Transaction.id (t : Transaction) : TxnId :=
  t.id?.getD 0

namespace Ledger

/-- Everything committed so far. -/
def snapshot (l : Ledger) : Snapshot where
  limit := l.nextId
  concurrent := l.running.map (·.1)

/-- Starts a transaction. Its snapshot is taken before its number is handed out. -/
def begin (l : Ledger) (ignorePrepare : Bool) : Transaction × Ledger :=
  (⟨some l.nextId, l.snapshot, ignorePrepare⟩,
    { l with nextId := l.nextId + 1, running := (l.nextId, .active) :: l.running })

/-- A reader of everything committed so far. -/
def implicit (l : Ledger) : Transaction :=
  ⟨none, l.snapshot, false⟩

/-- The state of a transaction by its number. Numbers never handed out read as aborted. -/
def stateOf (l : Ledger) (id : TxnId) : TxnState :=
  if id = 0 ∨ l.nextId ≤ id then .aborted
  else
    match l.running.lookup id with
    | some phase => phase.state
    | none => if l.aborted.contains id then .aborted else .committed

/-- The state of a transaction that is held. Implicit ones are always active. -/
def state (l : Ledger) (t : Transaction) : TxnState :=
  match t.id? with
  | some id => l.stateOf id
  | none => .active

def tracked (l : Ledger) : Nat :=
  l.running.length + l.aborted.length

def enter (l : Ledger) (id : TxnId) : TxnState → Ledger
  | .active => l
  | .prepared =>
    { l with running := l.running.map fun (i, phase) => (i, if i = id then .prepared else phase) }
  | .committed => { l with running := l.running.filter (·.1 ≠ id) }
  | .aborted =>
    { l with running := l.running.filter (·.1 ≠ id), aborted := id :: l.aborted }

def move (l : Ledger) (t : Transaction) (target : TxnState) : Except Error Ledger :=
  match t.id? with
  | none => .error (.invalidArgument .implicitMove)
  | some id =>
    if (l.stateOf id).canMove target then .ok (l.enter id target)
    else .error (.invalidArgument (.illegalMove id (l.stateOf id) target))

end Ledger

end Keyspan
