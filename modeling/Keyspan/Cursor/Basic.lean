import Keyspan.Bound.Basic
import Keyspan.Txn.Ledger

/-!
Cursors: a key range, a place in it, and what the next calls are to use.

The bounds and the place are separate. A change of bounds never touches an earlier result; it shapes
the next call that looks for a record, and it reopens a cursor that a bound had stopped.
-/

set_option autoImplicit false
set_option relaxedAutoImplicit false

namespace Keyspan

inductive Direction
  | forward
  | backward
  deriving DecidableEq, Repr

/-- A packed key and the value read under it. -/
structure Held where
  key : Bytes
  value : Bytes
  deriving DecidableEq, Repr

/-- A key and the value read under it. -/
structure Entry where
  key : Key
  value : Bytes
  deriving DecidableEq, Repr

/-- A packed key that a cursor steps on from. -/
structure Anchor where
  key : Bytes
  deriving DecidableEq, Repr

/-- Where a cursor stands between calls. Only packed keys are kept, so the pages behind them may come
and go. -/
inductive Position
  | unpositioned
  | positioned (anchor : Anchor)
  /-- A bound stopped the last walk. The key is the one returned before that, if any. -/
  | exhausted (direction : Direction) (last : Option Anchor)
  deriving DecidableEq, Repr

def Position.last : Position → Option Anchor
  | unpositioned => none
  | positioned anchor => some anchor
  | exhausted _ last => last

/-- Where a cursor stands, the entry it holds there, and the one that it held when a bound stopped
it. -/
structure Place where
  position : Position := .unpositioned
  current : Option Held := none
  parked : Option Held := none
  deriving DecidableEq, Repr

namespace Place

def on (h : Held) : Place :=
  { position := .positioned ⟨h.key⟩, current := some h }

/-- Stopped by a bound. What was held is set aside. -/
def stop (p : Place) (dir : Direction) : Place :=
  { position := .exhausted dir p.position.last, current := none, parked := p.current.or p.parked }

/-- Back from a bound, with what was set aside. -/
def reopen (p : Place) : Place :=
  match p.position with
  | .exhausted _ (some last) => { position := .positioned last, current := p.parked }
  | .exhausted _ none => { position := .unpositioned, current := p.parked }
  | _ => p

end Place

structure CursorOptions where
  /-- Near searches land only on keys that start with the one searched for. -/
  prefixSearch : Bool := false
  /-- Gives up the page behind each returned key once the call is done. -/
  releaseEvict : Bool := false
  deriving DecidableEq, Repr

structure Cursor where
  id : Nat
  options : CursorOptions
  bounds : Bounds := {}
  place : Place := {}
  /-- The packed key that searches and bound settings are to use. -/
  staged : Option Bytes := none
  txn : Option Transaction := none
  deriving DecidableEq, Repr

/-- Calls that change a cursor alone. What a call changed before it failed stays changed. -/
abbrev CursorM := EStateM Error Cursor

namespace Cursor

def position (c : Cursor) : Position :=
  c.place.position

def current (c : Cursor) : Option Held :=
  c.place.current

def key (f : Format) (c : Cursor) : Except Error Key :=
  match c.current with
  | some held => f.unpackKey held.key
  | none => .error .keyNotSet

def value (c : Cursor) : Except Error Bytes :=
  match c.current with
  | some held => .ok held.value
  | none => .error .keyNotSet

def setKey (f : Format) (key : Key) : CursorM Unit :=
  match f.packKey key with
  | .ok packed => modify fun c => { c with staged := some packed }
  | .error e => throw e

def setTxn (c : Cursor) (txn : Option Transaction) : Cursor :=
  { c with txn := txn }

/-- A cursor stopped by a bound returns to what it held. -/
def reopen (c : Cursor) : Cursor :=
  { c with place := c.place.reopen }

def onBounds (call : BoundsM Unit) : CursorM Unit := fun c =>
  match call.run c.bounds with
  | .ok _ b => .ok () { c with bounds := b }
  | .error e b => .error e { c with bounds := b }

def setBound (f : Format) (side : Side) (key : Key) (inclusive : Bool) : CursorM Unit := do
  onBounds (Bounds.set f side key inclusive)
  modify reopen

def clearBound (c : Cursor) (side : Option Side) : Cursor :=
  reopen { c with bounds := c.bounds.clear side }

/-- Carries out a bound request. Setting uses the staged key. -/
def applyBound (f : Format) (request : BoundRequest) : CursorM Unit := do
  match request.action with
  | .clear => modify (·.clearBound request.side)
  | .set =>
    match request.side, (← get).staged with
    | none, _ => throw (.invalidArgument .missingSide)
    | some _, none => throw .keyNotSet
    | some side, some key => do
      onBounds (Bounds.setPacked f side key request.inclusive)
      modify reopen

def configureBound (f : Format) (config : String) : CursorM Unit :=
  match BoundRequest.parse config with
  | .ok request => applyBound f request
  | .error fault => throw (.invalidArgument (.config fault))

def reset (c : Cursor) : Cursor :=
  { c with bounds := {}, place := {}, staged := none }

end Cursor

end Keyspan
