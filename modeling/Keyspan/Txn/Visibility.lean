import Keyspan.Txn.Ledger

set_option autoImplicit false
set_option relaxedAutoImplicit false

namespace Keyspan

inductive Visibility
  | visible
  | invisible
  /-- Written by another transaction that is prepared and not resolved. -/
  | foreignPrepared
  deriving DecidableEq, Repr

inductive Outcome
  | value (b : Bytes)
  /-- No update is visible, or the visible one is a removal. -/
  | hidden
  | conflict
  deriving DecidableEq, Repr

namespace Ledger

def classify (l : Ledger) (writer : TxnId) (reader : Transaction) : Visibility :=
  if reader.id? = some writer then .visible
  else
    match l.stateOf writer with
    | .prepared => .foreignPrepared
    | .committed => if reader.snapshot.sees writer then .visible else .invisible
    | _ => .invisible

def resolve (l : Ledger) (reader : Transaction) : List Version → Outcome
  | [] => .hidden
  | v :: older =>
    match l.classify v.writer reader with
    | .visible =>
      match v.value with
      | some b => .value b
      | none => .hidden
    | .foreignPrepared => if reader.ignorePrepare then l.resolve reader older else .conflict
    | .invisible => l.resolve reader older

end Ledger

end Keyspan
