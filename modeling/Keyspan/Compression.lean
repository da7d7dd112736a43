import Keyspan.Bytes

/-!
How the image of an evicted page is compressed, and the tag byte that says so.

What compresses blocks is left open. All that is known of it is that blocks come back, and that short ones
are taken.
-/

set_option autoImplicit false
set_option relaxedAutoImplicit false

namespace Keyspan

/-- What compresses blocks and brings them back. -/
structure Codec where
  compress? : Bytes → Option Bytes
  decompress? : Bytes → Option Bytes
  /-- Blocks shorter than this are taken. -/
  limit : Nat
  limit_le : limit ≤ UInt64.size
  takes (raw : Bytes) (short : raw.length < limit) : ∃ block, compress? raw = some block
  inverts {raw block : Bytes} (made : compress? raw = some block) : decompress? block = some raw

inductive Compression
  | plain
  | snappy
  deriving DecidableEq, Repr

namespace Compression

def tag : Compression → UInt8
  | plain => 0
  | snappy => 1

def ofTag? (t : UInt8) : Option Compression :=
  if t = 0 then some plain else if t = 1 then some snappy else none

variable (codec : Codec)

def compress? : Compression → Bytes → Option Bytes
  | plain, raw => some raw
  | snappy, raw => codec.compress? raw

def decompress? : Compression → Bytes → Option Bytes
  | plain, data => some data
  | snappy, data => codec.decompress? data

/-- Payloads shorter than this are taken. Only memory limits plain ones. -/
def limit : Compression → Nat
  | plain => UInt64.size
  | snappy => codec.limit

theorem ofTag?_tag (c : Compression) : ofTag? c.tag = some c := by
  cases c <;> rfl

variable {codec}

theorem limit_le (c : Compression) : c.limit codec ≤ UInt64.size := by
  cases c with
  | plain => exact Nat.le_refl _
  | snappy => exact codec.limit_le

theorem exists_compress? (c : Compression) {raw : Bytes} (h : raw.length < c.limit codec) :
    ∃ data, c.compress? codec raw = some data := by
  cases c with
  | plain => exact ⟨raw, rfl⟩
  | snappy => exact codec.takes raw h

theorem decompress?_of_compress? {c : Compression} {raw data : Bytes}
    (h : c.compress? codec raw = some data) : c.decompress? codec data = some raw := by
  cases c with
  | plain => exact h.symm
  | snappy => exact codec.inverts h

end Compression

end Keyspan
