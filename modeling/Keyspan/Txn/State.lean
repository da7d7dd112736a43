import Keyspan.Record

set_option autoImplicit false
set_option relaxedAutoImplicit false

namespace Keyspan

/-- The states of a transaction. The last two are final. -/
inductive TxnState
  | active
  | prepared
  | committed
  | aborted
  deriving DecidableEq, Repr

namespace TxnState

def name : TxnState → String
  | active => "Active"
  | prepared => "Prepared"
  | committed => "Committed"
  | aborted => "Aborted"

/-- Active or prepared. -/
def isRunning : TxnState → Bool
  | active | prepared => true
  | committed | aborted => false

/-- The moves there are: an active transaction prepares, a running one finishes. -/
def canMove : TxnState → TxnState → Bool
  | active, prepared => true
  | active, committed => true
  | active, aborted => true
  | prepared, committed => true
  | prepared, aborted => true
  | _, _ => false

end TxnState

end Keyspan
