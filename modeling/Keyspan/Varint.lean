import Keyspan.Bytes

/-!
Variable-length numbers: base-128 groups, least significant first, every byte but the last with its
top bit set.

A reader accepts at most ten groups and any spelling whose value fits in 64 bits; the writer gives
the shortest spelling. `put` and `peek` do the same within 64-bit words, and count the bytes they go
through.
-/

set_option autoImplicit false
set_option relaxedAutoImplicit false

namespace Keyspan.Varint

/-- Ten groups of seven bits hold every 64-bit number. -/
def maxGroups : Nat := 10

/-- Spells `n` in at most the given number of groups, stopping at the last one that is not zero. -/
def spell : Nat → Nat → Bytes
  | 0, _ => []
  | k + 1, n => if n < 128 then [n.toUInt8] else (n % 128 + 128).toUInt8 :: spell k (n / 128)

def encode (n : UInt64) : Bytes :=
  spell maxGroups n.toNat

/-- Reads at most the given number of groups, whatever number they add up to. -/
def groups : Nat → Reader Nat
  | 0, _ => none
  | _ + 1, [] => none
  | k + 1, b :: rest =>
    if b.toNat < 128 then some (b.toNat, rest)
    else (groups k rest).map fun (n, left) => (b.toNat % 128 + 128 * n, left)

/-- Reads a number of at most ten groups that fits in 64 bits. -/
def read : Reader UInt64 := fun src =>
  match groups maxGroups src with
  | some (n, rest) => if n < UInt64.size then some (n.toUInt64, rest) else none
  | none => none

/-- Appends the groups of `n` to some bytes, and counts them on from `count`. -/
def putFrom (dst : Bytes) (count : Nat) (n : UInt64) : Bytes × Nat :=
  if n < 128 then (dst ++ [n.toUInt8], count + 1)
  else putFrom (dst ++ [n.toUInt8 ||| 128]) (count + 1) (n >>> 7)
termination_by n.toNat
decreasing_by
  rename_i h
  rw [UInt64.lt_iff_toNat_lt] at h
  simp only [UInt64.toNat_shiftRight, UInt64.reduceToNat, Nat.reduceMod,
    Nat.shiftRight_eq_div_pow] at h ⊢
  omega

def put (dst : Bytes) (n : UInt64) : Bytes × Nat :=
  putFrom dst 0 n

/-- Reads on after `count` groups that make up `n`. The tenth group has room for one bit. -/
def peekFrom (n : UInt64) (count : Nat) : Bytes → Option (UInt64 × Nat)
  | [] => none
  | b :: rest =>
    let shift := 7 * count
    let low := (b &&& 127).toUInt64
    if shift = 63 ∧ 1 < low then none
    else
      let n := n ||| low <<< shift.toUInt64
      if b < 128 then some (n, count + 1) else peekFrom n (count + 1) rest

/-- The number at the front of some bytes, and how many of them it takes. -/
def peek (src : Bytes) : Option (UInt64 × Nat) :=
  peekFrom 0 0 (src.take maxGroups)

def encodeSlice (b : Bytes) : Bytes :=
  encode b.length.toUInt64 ++ b

/-- Takes a number off the front. A failure takes nothing. -/
def drain (src : Bytes) : Option UInt64 × Bytes :=
  match read src with
  | some (n, rest) => (some n, rest)
  | none => (none, src)

/-- Takes a length and that many bytes off the front. A length that announces more bytes than there
are is still taken. -/
def drainSlice (src : Bytes) : Option Bytes × Bytes :=
  match drain src with
  | (none, rest) => (none, rest)
  | (some n, rest) =>
    match Bytes.cut? n.toNat rest with
    | some (b, left) => (some b, left)
    | none => (none, rest)

def readSlice : Reader Bytes := fun src =>
  match drainSlice src with
  | (some b, rest) => some (b, rest)
  | (none, _) => none

end Keyspan.Varint
