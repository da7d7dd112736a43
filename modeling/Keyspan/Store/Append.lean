import Keyspan.Store.Basic

set_option autoImplicit false
set_option relaxedAutoImplicit false

namespace Keyspan

/-- Puts an update in front of the chain of the record that compares equal to `key`, or files a new
record in its place. A record keeps the key it was filed under. -/
def Record.file (order : KeyOrder) (key : Bytes) (v : Version) (records : List Record) :
    List Record :=
  let i := Front.length (fun r => (order.compare r.key key).isLT) records
  match records.drop i with
  | [] => records.take i ++ [⟨key, [v]⟩]
  | r :: rest =>
    if order.compare r.key key = .eq then records.take i ++ r.push v :: rest
    else records.take i ++ ⟨key, [v]⟩ :: r :: rest

/-- What becomes of a page when an update is filed among its records. A key below the first one takes its
place. Records over the limit are split, and the second half makes a page under its own first key. -/
def Page.file (order : KeyOrder) (limit : Nat) (key : Bytes) (v : Version) (records : List Record)
    (p : Page) : List Page :=
  let first := if order.compare key p.first = .lt then key else p.first
  let records := Record.file order key v records
  if limit < records.length then
    let half := records.length / 2
    ⟨first, .resident (records.take half)⟩ ::
      match records.drop half with
      | [] => []
      | r :: tail => [⟨r.key, .resident (r :: tail)⟩]
  else [⟨first, .resident records⟩]

namespace Store

/-- The store with other pages in the place of the one at `i`. -/
def replacePage (s : Store) (i : Nat) (f : Page → List Page) : Store :=
  { s with pages := s.pages.take i ++ s.pages[i]?.toList.flatMap f ++ s.pages.drop (i + 1) }

def append (key : Bytes) (v : Version) : StoreM Unit := do
  let s ← get
  if s.pages.isEmpty then modify fun s => { s with pages := [⟨key, .resident [⟨key, [v]⟩]⟩] }
  else
    let i := s.pageFor key
    let records ← load i
    modify fun s => s.replacePage i (Page.file s.order s.pageLimit key v records)

end Store

end Keyspan
