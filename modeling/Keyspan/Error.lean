import Keyspan.Bound.Request
import Keyspan.Key.Packed
import Keyspan.Page.Image
import Keyspan.Txn.State

set_option autoImplicit false
set_option relaxedAutoImplicit false

namespace Keyspan

inductive Positioning
  | next
  | prev
  | search
  | searchNear
  deriving DecidableEq, Repr

namespace Positioning

def name : Positioning → String
  | next => "next"
  | prev => "prev"
  | search => "search"
  | searchNear => "search_near"

end Positioning

inductive ArgumentFault
  | format (text : String) (fault : FormatFault)
  | config (fault : ConfigFault)
  | missingSide
  | implicitMove
  | illegalMove (id : TxnId) (source target : TxnState)
  | cannotWrite (id : TxnId) (state : TxnState)
  deriving DecidableEq, Repr

namespace ArgumentFault

def message : ArgumentFault → String
  | format text fault => "key format " ++ Text.quote text ++ ": " ++ fault.message
  | config fault => fault.message
  | missingSide => "setting a bound requires a side"
  | implicitMove => "implicit transactions cannot change state"
  | illegalMove id source target =>
    "transaction " ++ id.toNat.repr ++ " cannot move from " ++ source.name ++ " to " ++ target.name
  | cannotWrite id state =>
    "transaction " ++ id.toNat.repr ++ " is " ++ state.name ++ " and cannot write"

end ArgumentFault

inductive Corruption
  | key (fault : PackedFault)
  | imageTooShort
  | imageChecksum
  | imageCompression
  | imageMalformed
  deriving DecidableEq, Repr

namespace Corruption

def message : Corruption → String
  | key fault => fault.message
  | imageTooShort => "page image too short"
  | imageChecksum => "page image checksum mismatch"
  | imageCompression => "bad page compression type"
  | imageMalformed => "malformed page image"

end Corruption

inductive Error
  /-- A lower bound would stand above the upper bound. -/
  | invalidRange (lower upper : String)
  | formatMismatch (cause : Mismatch)
  | keyNotSet
  /-- The cursor's own transaction is prepared. -/
  | preparedTransaction (call : Positioning)
  /-- Another transaction's prepared update is in the way. -/
  | preparedConflict (key : String)
  | invalidArgument (cause : ArgumentFault)
  | corruption (cause : Corruption)
  | compressionFailed
  deriving DecidableEq, Repr

namespace Error

def message : Error → String
  | invalidRange lower upper =>
    "invalid bound range: lower bound " ++ lower ++ " is above upper bound " ++ upper
  | formatMismatch cause => "key format mismatch: " ++ cause.message
  | keyNotSet => "requires key be set"
  | preparedTransaction call => call.name ++ " not permitted in a prepared transaction"
  | preparedConflict key => "conflict with a prepared update on key " ++ key
  | invalidArgument cause => "invalid argument: " ++ cause.message
  | corruption cause => "corruption: " ++ cause.message
  | compressionFailed => "snappy compression failed"

def ofImage : ImageFault → Error
  | .tooShort => corruption .imageTooShort
  | .checksum => corruption .imageChecksum
  | .unknownCompression => corruption .imageCompression
  | .malformed => corruption .imageMalformed
  | .compression => compressionFailed

end Error

namespace Format

def ofText (s : String) : Except Error Format :=
  match parse s with
  | .ok f => .ok f
  | .error fault => .error (.invalidArgument (.format s fault))

def packKey (f : Format) (key : Key) : Except Error Bytes :=
  match f.pack key with
  | .ok packed => .ok packed
  | .error cause => .error (.formatMismatch cause)

def unpackKey (f : Format) (packed : Bytes) : Except Error Key :=
  match f.unpack packed with
  | .ok key => .ok key
  | .error fault => .error (.corruption (.key fault))

end Format

end Keyspan
