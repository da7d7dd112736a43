import Keyspan.Session.CursorCall
import Keyspan.Session.StoreCall
import Keyspan.Session.TxnCall

set_option autoImplicit false
set_option relaxedAutoImplicit false

namespace Keyspan

structure Session where
  table : Table
  txns : List Transaction := []
  cursors : List Cursor := []

/-- Transactions and cursors are named by the order in which they were opened. -/
inductive Call
  | txn (call : TxnCall)
  | store (call : StoreCall)
  | insert (txn : Option Nat) (key : Key) (value : Bytes)
  | remove (txn : Option Nat) (key : Key)
  | stats
  | openCursor (options : CursorOptions)
  | closeCursor (cursor : Nat)
  | setTxn (cursor : Nat) (txn : Option Nat)
  | cursor (cursor : Nat) (call : CursorCall)
  deriving DecidableEq, Repr

namespace Session

/-- The transaction that an argument names: none for no name, nothing for an unknown one. -/
def txn? (s : Session) : Option Nat → Option (Option Transaction)
  | none => some none
  | some t => (s.txns[t]?).map some

def write (s : Session) (txn : Option Nat) (key : Key) (value : Option Bytes) : Reply × Session :=
  match s.txn? txn with
  | none => (.unknownHandle, s)
  | some txn =>
    match (Table.write txn key value).run s.table with
    | .ok _ t => (.done, { s with table := t })
    | .error e t => (.failed e, { s with table := t })

def onCursor (s : Session) (i : Nat) (call : CursorCall) : Reply × Session :=
  match s.cursors[i]? with
  | none => (.unknownHandle, s)
  | some c =>
    let (reply, scan) := call.run ⟨c, s.table⟩
    (reply, { s with table := scan.table, cursors := s.cursors.set i scan.cursor })

def run (s : Session) : Call → Reply × Session
  | .txn call =>
    let (reply, desk) := call.run ⟨s.table.ledger, s.txns⟩
    (reply, { s with table.ledger := desk.ledger, txns := desk.opened })
  | .store call =>
    let (reply, store) := call.run s.table.store
    (reply, { s with table.store := store })
  | .insert txn key value => s.write txn key (some value)
  | .remove txn key => s.write txn key none
  | .stats => (.stats s.table.stats, s)
  | .openCursor options =>
    let id := s.table.nextCursor
    (.opened id,
      { s with
        table.nextCursor := id + 1
        cursors := s.cursors ++ [{ id := id, options := options }] })
  | .closeCursor i => s.onCursor i .reset
  | .setTxn i txn =>
    match s.txn? txn with
    | none => (.unknownHandle, s)
    | some txn => s.onCursor i (.setTxn txn)
  | .cursor i call => s.onCursor i call

def runAll (s : Session) : List Call → List Reply × Session
  | [] => ([], s)
  | call :: rest =>
    let (reply, s) := s.run call
    let (replies, s) := s.runAll rest
    (reply :: replies, s)

end Session

end Keyspan
