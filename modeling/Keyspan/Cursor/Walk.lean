import Keyspan.Cursor.Scan

set_option autoImplicit false
set_option relaxedAutoImplicit false

namespace Keyspan.Scan

/-- Where a walk starts that has nothing to step from: at its bound if there is one. -/
def seed (dir : Direction) : ScanM Seek := do
  match dir.start (← get).cursor.bounds with
  | some bound =>
    count fun n => { n with boundSeeks := n.boundSeeks + 1 }
    pure (dir.ofBound bound)
  | none => pure dir.outermost

/-- Where a walk starts. A key that the starting bound has left behind is no place to step from. -/
def origin (dir : Direction) : ScanM Seek := do
  let s ← get
  match s.cursor.position with
  | .positioned anchor =>
    if dir.reaches s.table.format s.cursor.bounds anchor.key then pure (dir.beyond anchor.key)
    else seed dir
  | _ => seed dir

/-- Hunts from the origin and lands, stops at the bound, or leaves the table. -/
def advance (dir : Direction) : ScanM (Option Entry) := do
  let m ← origin dir
  let s ← get
  match ← hunt dir s.reader (dir.admits s.table.format s.cursor.bounds) s.huntLimit m with
  | .held h => some <$> land h
  | .barred _ =>
    count fun n => { n with boundExits := n.boundExits + 1 }
    place (s.cursor.place.stop dir)
    pure none
  | .nothing =>
    place {}
    pure none

/-- Whether the cursor was stopped by the bound that a walk in this direction runs into. -/
def isExhausted (dir : Direction) (s : Scan) : Bool :=
  match s.cursor.position with
  | .exhausted d _ => d == dir
  | _ => false

/-- Steps to the neighbouring record. A cursor stopped by the bound ahead stays there. -/
def step (dir : Direction) : ScanM (Option Entry) := do
  requireUnprepared (match dir with | .forward => .next | .backward => .prev)
  if (← get).isExhausted dir then pure none else advance dir

def next : ScanM (Option Entry) :=
  step .forward

def prev : ScanM (Option Entry) :=
  step .backward

/-- Steps up to the given number of times, ending with the first step that finds nothing or
fails. -/
def walk (dir : Direction) : Nat → Scan → List (Except Error (Option Entry)) × Scan
  | 0, s => ([], s)
  | n + 1, s =>
    match (step dir).run s with
    | .ok (some e) s =>
      let (rest, s) := walk dir n s
      (.ok (some e) :: rest, s)
    | .ok none s => ([.ok none], s)
    | .error e s => ([.error e], s)

end Keyspan.Scan
