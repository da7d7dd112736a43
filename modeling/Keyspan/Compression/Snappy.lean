import Keyspan.Varint

/-!
The raw block format of Snappy: the length of the uncompressed bytes, then elements that are either
literal bytes or copies of bytes already produced.

All blocks of the format are read. The ones that are written here are a single literal.
-/

set_option autoImplicit false
set_option relaxedAutoImplicit false

namespace Keyspan.Snappy

def maxLength : Nat := UInt32.size

inductive Element
  | literal (bytes : Bytes)
  | copy (offset length : Nat)
  deriving DecidableEq, Repr

/-- Five groups of seven bits hold every length below `maxLength`. -/
def maxLengthGroups : Nat := 5

/-- Reads the stated length. Its spelling need not be the shortest. -/
def readLength : Reader Nat := fun src => do
  let (n, rest) ← Varint.groups maxLengthGroups src
  if n < maxLength then some (n, rest) else none

/-- Reads a literal whose tag byte holds `n` above its two type bits. Lengths over 60 stand in one to
four bytes of their own. -/
def readLiteral (n : Nat) : Reader Element := fun src => do
  if n < 60 then
    let (bytes, rest) ← Bytes.cut? (n + 1) src
    some (.literal bytes, rest)
  else
    let (digits, rest) ← Bytes.cut? (n - 59) src
    let (bytes, rest) ← Bytes.cut? (Bytes.ofLittleEndian digits + 1) rest
    some (.literal bytes, rest)

/-- Reads a copy whose offset has the given number of low bytes of its own. -/
def readCopy (width high length : Nat) : Reader Element := fun src => do
  let (digits, rest) ← Bytes.cut? width src
  some (.copy (high * 256 + Bytes.ofLittleEndian digits) length, rest)

def readElement : Reader Element
  | [] => none
  | tag :: rest =>
    let n := tag.toNat / 4
    match tag.toNat % 4 with
    | 0 => readLiteral n rest
    | 1 => readCopy 1 (n / 8) (n % 8 + 4) rest
    | 2 => readCopy 2 0 (n + 1) rest
    | _ => readCopy 4 0 (n + 1) rest

/-- Repeats bytes from `offset` back, one at a time, so that a copy may run into itself. -/
def copyBack (offset : Nat) : Nat → Array UInt8 → Array UInt8
  | 0, out => out
  | n + 1, out => copyBack offset n (out.push (out.getD (out.size - offset) 0))

/-- Carries out elements until the source is used up, which has to be when there is no more room. The
first argument bounds the number of elements. -/
def expand : Nat → Nat → Array UInt8 → Bytes → Option Bytes
  | _, room, out, [] => if room = 0 then some out.toList else none
  | 0, _, _, _ :: _ => none
  | fuel + 1, room, out, src => do
    let (element, rest) ← readElement src
    match element with
    | .literal bytes =>
      if bytes.length ≤ room then
        expand fuel (room - bytes.length) (out ++ bytes) rest
      else none
    | .copy offset length =>
      if 0 < offset ∧ offset ≤ out.size ∧ length ≤ room then
        expand fuel (room - length) (copyBack offset length out) rest
      else none

def decompress? (block : Bytes) : Option Bytes := do
  let (length, elements) ← readLength block
  expand elements.length length #[] elements

def literal (raw : Bytes) : Bytes :=
  if raw.isEmpty then []
  else if raw.length ≤ 60 then ((raw.length - 1) * 4).toUInt8 :: raw
  else 252 :: (Bytes.littleEndian 4 (raw.length - 1) ++ raw)

def maxBlockLength (n : Nat) : Nat :=
  32 + n + n / 6

/-- A block that stands for `raw`, unless blocks for as many bytes may grow too long. -/
def compress? (raw : Bytes) : Option Bytes :=
  if maxBlockLength raw.length < maxLength then
    some (Varint.encode raw.length.toUInt64 ++ literal raw)
  else none

end Keyspan.Snappy
