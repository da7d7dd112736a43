import Keyspan.Error
import Keyspan.Key.Order

/-!
The bounds of a cursor: an optional lower and an optional upper end of its key range.

The lower bound never compares above the upper one. Bounds that compare equal are accepted even when
one of them is exclusive; such a range admits nothing.
-/

set_option autoImplicit false
set_option relaxedAutoImplicit false

namespace Keyspan

structure Bound where
  key : Bytes
  inclusive : Bool
  deriving DecidableEq, Repr

structure Bounds where
  lower : Option Bound := none
  upper : Option Bound := none
  deriving DecidableEq, Repr

/-- Calls on bounds. What a call changed before it failed stays changed. -/
abbrev BoundsM := EStateM Error Bounds

namespace Bounds

def isEmpty (b : Bounds) : Bool :=
  b.lower.isNone && b.upper.isNone

/-- Replaces the bound on one side, whatever stands on the other. -/
def put (b : Bounds) (side : Side) (bound : Option Bound) : Bounds :=
  match side with
  | .lower => { b with lower := bound }
  | .upper => { b with upper := bound }

/-- Refuses a lower end that compares above the upper end. -/
def checkRange (f : Format) (lower upper : Bytes) : BoundsM Unit :=
  if (KeyOrder.typed f).compare lower upper = .gt then
    throw (.invalidRange (f.describe lower) (f.describe upper))
  else pure ()

def setPacked (f : Format) (side : Side) (key : Bytes) (inclusive : Bool) : BoundsM Unit := do
  let b ← get
  match side with
  | .lower => if let some upper := b.upper then checkRange f key upper.key
  | .upper => if let some lower := b.lower then checkRange f lower.key key
  modify (·.put side (some ⟨key, inclusive⟩))

def set (f : Format) (side : Side) (key : Key) (inclusive : Bool) : BoundsM Unit :=
  match f.packKey key with
  | .ok packed => setPacked f side packed inclusive
  | .error e => throw e

/-- Clears one side, or both when none is named. -/
def clear (b : Bounds) : Option Side → Bounds
  | some side => b.put side none
  | none => {}

/-- Whether `key` is within the upper bound, so that a forward walk may still return it. -/
def admitsForward (f : Format) (b : Bounds) (key : Bytes) : Bool :=
  match b.upper with
  | none => true
  | some upper =>
    match (KeyOrder.typed f).compare key upper.key with
    | .lt => true
    | .eq => upper.inclusive
    | .gt => false

/-- Whether `key` is within the lower bound, so that a backward walk may still return it. -/
def admitsBackward (f : Format) (b : Bounds) (key : Bytes) : Bool :=
  match b.lower with
  | none => true
  | some lower =>
    match (KeyOrder.typed f).compare key lower.key with
    | .lt => false
    | .eq => lower.inclusive
    | .gt => true

def admits (f : Format) (b : Bounds) (key : Bytes) : Bool :=
  b.admitsForward f key && b.admitsBackward f key

end Bounds

end Keyspan
