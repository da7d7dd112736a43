import Keyspan.Cursor.Search
import Keyspan.Cursor.Walk
import Keyspan.Stats

set_option autoImplicit false
set_option relaxedAutoImplicit false

namespace Keyspan

structure TxnInfo where
  id : TxnId
  state : TxnState
  ignorePrepare : Bool
  deriving DecidableEq, Repr

inductive Reply
  | done
  | failed (e : Error)
  /-- A call named a transaction or a cursor that the session does not have. -/
  | unknownHandle
  | flag (b : Bool)
  | count (n : Nat)
  | pages (all resident : Nat)
  | stats (s : Stats)
  | record (r : Option Record)
  | begun (id : TxnId)
  | info (i : TxnInfo)
  | state (s : TxnState)
  | visibility (v : Visibility)
  | opened (cursor : Nat)
  | holding (key : Except Error Key) (value : Except Error Bytes)
  | entry (e : Option Entry)
  | near (e : Option (Nearness × Entry))
  | walked (steps : List (Except Error (Option Entry)))

end Keyspan
