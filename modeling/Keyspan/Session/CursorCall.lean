import Keyspan.Session.Reply

set_option autoImplicit false
set_option relaxedAutoImplicit false

namespace Keyspan

inductive CursorCall
  | setTxn (txn : Option Transaction)
  | setKey (key : Key)
  | get
  | configureBound (config : String)
  | applyBound (request : BoundRequest)
  | setBound (side : Side) (key : Key) (inclusive : Bool)
  | clearBound (side : Option Side)
  | reset
  | next
  | prev
  | search
  | searchNear
  | walk (dir : Direction) (n : Nat)
  deriving DecidableEq, Repr

namespace CursorCall

def answer {α : Type} (reply : α → Reply) (call : ScanM α) (s : Scan) : Reply × Scan :=
  match call.run s with
  | .ok x s => (reply x, s)
  | .error e s => (.failed e, s)

def change (s : Scan) (call : CursorM Unit) : Reply × Scan :=
  match call.run s.cursor with
  | .ok _ c => (.done, { s with cursor := c })
  | .error e c => (.failed e, { s with cursor := c })

def run (s : Scan) : CursorCall → Reply × Scan
  | setTxn txn => change s (modify (·.setTxn txn))
  | setKey key => change s (Cursor.setKey s.table.format key)
  | get => (.holding (s.cursor.key s.table.format) s.cursor.value, s)
  | configureBound config => change s (Cursor.configureBound s.table.format config)
  | applyBound request => change s (Cursor.applyBound s.table.format request)
  | setBound side key inclusive => change s (Cursor.setBound s.table.format side key inclusive)
  | clearBound side => change s (modify (·.clearBound side))
  | reset => change s (modify Cursor.reset)
  | next => answer .entry Scan.next s
  | prev => answer .entry Scan.prev s
  | search => answer .entry Scan.search s
  | searchNear => answer .near Scan.searchNear s
  | walk dir n =>
    let (steps, s) := Scan.walk dir n s
    (.walked steps, s)

end CursorCall

end Keyspan
