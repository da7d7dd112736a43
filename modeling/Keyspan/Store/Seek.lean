import Keyspan.Store.Basic

set_option autoImplicit false
set_option relaxedAutoImplicit false

namespace Keyspan

/-- Which record to pick. The last four give the record nearest to the key on the stated side. -/
inductive Seek
  | first
  | last
  | exact (key : Bytes)
  | atOrAfter (key : Bytes)
  | after (key : Bytes)
  | atOrBefore (key : Bytes)
  | before (key : Bytes)
  deriving DecidableEq, Repr

namespace Seek

def accepts (order : KeyOrder) (r : Record) : Seek → Bool
  | first => true
  | last => true
  | exact key => order.compare r.key key == .eq
  | atOrAfter key => (order.compare r.key key).isGE
  | after key => (order.compare r.key key).isGT
  | atOrBefore key => (order.compare r.key key).isLE
  | before key => (order.compare r.key key).isLT

end Seek

namespace Store

/-- The first record past those in front, in `count` pages from the one at `i` on. Later pages are
left alone once there is one. -/
def firstFrom (isFront : Record → Bool) : Nat → Nat → StoreM (Option Record)
  | 0, _ => pure none
  | count + 1, i => do
    match Front.next? isFront (← load i) with
    | some r => pure (some r)
    | none => firstFrom isFront count (i + 1)

/-- The last record in front, in the first `count` pages. Earlier pages are left alone once there is
one. -/
def lastAmong (isFront : Record → Bool) : Nat → StoreM (Option Record)
  | 0 => pure none
  | count + 1 => do
    match Front.last? isFront (← load count) with
    | some r => pure (some r)
    | none => lastAmong isFront count

/-- The record that a seek picks, wherever its page is. -/
def locate (m : Seek) : StoreM (Option Record) := do
  let s ← get
  let passes := fun r => m.accepts s.order r
  let misses := fun r => !m.accepts s.order r
  match m with
  | .first => firstFrom misses s.pages.length 0
  | .last => lastAmong passes s.pages.length
  | .exact key => do
    let isBefore := fun r : Record => (s.order.compare r.key key).isLT
    pure ((Front.next? isBefore (← load (s.pageFor key))).filter passes)
  | .atOrAfter key | .after key =>
    firstFrom misses (s.pages.length - s.pageFor key) (s.pageFor key)
  | .atOrBefore key | .before key => lastAmong passes (s.pageFor key + 1)

/-- The record that a seek picks, counted as visited. -/
def seek (m : Seek) : StoreM (Option Record) := do
  let found ← locate m
  if found.isSome then
    modify fun s => { s with stats.visited := s.stats.visited + 1 }
  pure found

end Store

end Keyspan
