import Keyspan.Session.Reply

set_option autoImplicit false
set_option relaxedAutoImplicit false

namespace Keyspan

inductive StoreCall
  | append (key : Bytes) (v : Version)
  | seek (m : Seek)
  | evictPage (i : Nat)
  | evictAll
  | evictPicked (count : Nat) (picks : List Nat)
  | evictContaining (key : Bytes)
  | release (key : Bytes)
  | serve (requests : List EvictionRequest)
  | pages
  deriving DecidableEq, Repr

namespace StoreCall

def answer {α : Type} (reply : α → Reply) (call : StoreM α) (s : Store) : Reply × Store :=
  match call.run s with
  | .ok x s => (reply x, s)
  | .error fault s => (.failed (.ofImage fault), s)

def run (s : Store) : StoreCall → Reply × Store
  | append key v => answer (fun _ => .done) (Store.append key v) s
  | seek m => answer .record (Store.seek m) s
  | evictPage i => answer .flag (Store.evictPage i) s
  | evictAll => answer .count Store.evictAll s
  | evictPicked count picks => answer .count (Store.evictPicked count picks) s
  | evictContaining key => answer .flag (Store.evictContaining key) s
  | release key => answer (fun _ => .done) (Store.release key) s
  | serve requests => (.done, s.serve requests)
  | pages => (.pages s.pages.length s.residentPages, s)

end StoreCall

end Keyspan
