import Keyspan.Bytes

set_option autoImplicit false
set_option relaxedAutoImplicit false

namespace Keyspan

/-- The number of a transaction. Zero is never handed out. -/
abbrev TxnId := UInt64

/-- One update of a key: who wrote it and what. No value means that the key was removed. -/
structure Version where
  writer : TxnId
  value : Option Bytes
  deriving DecidableEq, Repr

structure Record where
  key : Bytes
  versions : List Version
  deriving DecidableEq, Repr

namespace Record

def push (r : Record) (v : Version) : Record :=
  { r with versions := v :: r.versions }

end Record

end Keyspan
