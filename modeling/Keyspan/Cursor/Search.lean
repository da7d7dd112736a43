import Keyspan.Cursor.Scan

set_option autoImplicit false
set_option relaxedAutoImplicit false

namespace Keyspan

inductive Nearness
  | smaller
  | exact
  | larger
  deriving DecidableEq, Repr

namespace Scan

def miss {α : Type} : ScanM (Option α) := do
  place {}
  pure none

/-- Lands on the record of the staged key, provided it is there, visible and in range. -/
def search : ScanM (Option Entry) := do
  requireUnprepared .search
  let key ← requireStaged
  let s ← get
  if s.cursor.bounds.admits s.table.format key then
    match ← onStore (Store.seek (.exact key)) with
    | none => miss
    | some r =>
      match s.table.ledger.resolve s.reader r.versions with
      | .value b => some <$> land ⟨r.key, b⟩
      | .hidden => miss
      | .conflict => throw (s.conflict r.key)
  else miss

/-- Whether the field of a packed key starts with `lead`, if there is a lead. -/
def hasLead (f : Format) (lead : Option Bytes) (key : Bytes) : Bool :=
  match lead with
  | none => true
  | some lead =>
    match f.leadField? key with
    | some field => lead.isPrefixOf field
    | none => false

def leadOf (s : Scan) (key : Bytes) : Option Bytes :=
  if s.cursor.options.prefixSearch then s.table.format.leadField? key else none

/-- Where a near search starts among the keys that are not smaller. -/
def nearOrigin (s : Scan) (key : Bytes) : Seek :=
  match s.cursor.bounds.lower with
  | some lower =>
    if s.cursor.bounds.admitsBackward s.table.format key then .atOrAfter key
    else Direction.forward.ofBound lower
  | none => .atOrAfter key

/-- Where a near search starts among the keys that are smaller. -/
def nearOriginBelow (s : Scan) (key : Bytes) : Seek :=
  match s.cursor.bounds.upper with
  | some upper =>
    if s.cursor.bounds.admitsForward s.table.format key then .before key
    else Direction.backward.ofBound upper
  | none => .before key

def nearAbove (key : Bytes) (lead : Option Bytes) : ScanM (Option (Nearness × Entry)) := do
  let s ← get
  let f := s.table.format
  let onward := fun k => s.cursor.bounds.admitsForward f k && hasLead f lead k
  match ← hunt .forward s.reader onward s.huntLimit (s.nearOrigin key) with
  | .held h => do
    let nearness := match (KeyOrder.typed f).compare h.key key with
      | .eq => Nearness.exact
      | _ => Nearness.larger
    pure (some (nearness, ← land h))
  | .barred r => do
    if s.cursor.bounds.admitsForward f r.key then
      count fun n => { n with leadStops := n.leadStops + 1 }
    pure none
  | .nothing => pure none

def nearBelow (key : Bytes) : ScanM (Option (Nearness × Entry)) := do
  let s ← get
  let onward := s.cursor.bounds.admitsBackward s.table.format
  match ← hunt .backward s.reader onward s.huntLimit (s.nearOriginBelow key) with
  | .held h => do pure (some (.smaller, ← land h))
  | _ => pure none

/-- Lands on the visible record in range that is nearest to the staged key, the larger ones first.
Confined to a leading part, the search gives up at the first larger key without it: nothing smaller
than the staged key can start with it. -/
def searchNear : ScanM (Option (Nearness × Entry)) := do
  requireUnprepared .searchNear
  let key ← requireStaged
  let lead := (← get).leadOf key
  match ← nearAbove key lead with
  | some found => pure (some found)
  | none =>
    if lead.isSome then miss
    else
      match ← nearBelow key with
      | some found => pure (some found)
      | none => miss

end Scan

end Keyspan
