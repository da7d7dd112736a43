import Keyspan.Bytes

/-!
The 32-bit cyclic redundancy check (IEEE polynomial, bits reflected), and the masked form in which
checks are stored: a check over bytes that contain checks would be weak, so a stored one is rotated
and offset.
-/

set_option autoImplicit false
set_option relaxedAutoImplicit false

namespace Keyspan.Checksum

/-- The generator polynomial, lowest coefficient in the top bit. -/
def polynomial : UInt32 := 0xEDB88320

def shift (r : UInt32) : UInt32 :=
  if r &&& 1 = 1 then (r >>> 1) ^^^ polynomial else r >>> 1

def shifts : Nat → UInt32 → UInt32
  | 0, r => r
  | n + 1, r => shifts n (shift r)

def feed (r : UInt32) (b : UInt8) : UInt32 :=
  shifts 8 (r ^^^ b.toUInt32)

def crc (data : Bytes) : UInt32 :=
  data.foldl feed 0xFFFFFFFF ^^^ 0xFFFFFFFF

def maskOffset : UInt32 := 0xA282EAD8

def mask (check : UInt32) : UInt32 :=
  ((check >>> 15) ||| (check <<< 17)) + maskOffset

def unmask (stored : UInt32) : UInt32 :=
  let r := stored - maskOffset
  (r >>> 17) ||| (r <<< 15)

/-- The stored check over `data` followed by the byte `tag`. -/
def masked (data : Bytes) (tag : UInt8) : UInt32 :=
  mask (crc (data ++ [tag]))

def verify (data : Bytes) (tag : UInt8) (stored : UInt32) : Bool :=
  crc (data ++ [tag]) == unmask stored

end Keyspan.Checksum
