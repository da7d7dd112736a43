import Keyspan.Record

set_option autoImplicit false
set_option relaxedAutoImplicit false

namespace Keyspan

/-- Everything that had started and was no longer running when the snapshot was taken: the numbers
below `limit` other than those in `concurrent`. -/
structure Snapshot where
  limit : TxnId
  concurrent : List TxnId
  deriving DecidableEq, Repr

/-- Whether the writes of a transaction are in the snapshot. -/
def Snapshot.sees (s : Snapshot) (id : TxnId) : Bool :=
  id < s.limit && !s.concurrent.contains id

end Keyspan
