import Keyspan.Session.Reply

/-!
The transaction calls of a session. Transactions are named by the order in which they were opened.
-/

set_option autoImplicit false
set_option relaxedAutoImplicit false

namespace Keyspan

structure Desk where
  ledger : Ledger := {}
  opened : List Transaction := []
  deriving DecidableEq, Repr

inductive TxnCall
  | begin (ignorePrepare : Bool)
  | implicit
  | move (txn : Nat) (target : TxnState)
  | info (txn : Nat)
  | stateOf (id : TxnId)
  | sees (txn : Nat) (id : TxnId)
  | classify (reader : Nat) (writer : TxnId)
  | tracked
  deriving DecidableEq, Repr

namespace TxnCall

def about (d : Desk) (txn : Nat) (reply : Transaction → Reply) : Reply :=
  match d.opened[txn]? with
  | some t => reply t
  | none => .unknownHandle

def run (d : Desk) : TxnCall → Reply × Desk
  | begin ignorePrepare =>
    let (t, ledger) := d.ledger.begin ignorePrepare
    (.begun t.id, ⟨ledger, d.opened ++ [t]⟩)
  | implicit =>
    let t := d.ledger.implicit
    (.begun t.id, { d with opened := d.opened ++ [t] })
  | move txn target =>
    match d.opened[txn]? with
    | none => (.unknownHandle, d)
    | some t =>
      match d.ledger.move t target with
      | .ok ledger => (.done, { d with ledger := ledger })
      | .error e => (.failed e, d)
  | info txn => (about d txn fun t => .info ⟨t.id, d.ledger.state t, t.ignorePrepare⟩, d)
  | stateOf id => (.state (d.ledger.stateOf id), d)
  | sees txn id => (about d txn fun t => .flag (t.snapshot.sees id), d)
  | classify reader writer => (about d reader fun t => .visibility (d.ledger.classify writer t), d)
  | tracked => (.count d.ledger.tracked, d)

end TxnCall

end Keyspan
