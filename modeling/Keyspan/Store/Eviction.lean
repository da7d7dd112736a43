import Keyspan.Store.Basic

set_option autoImplicit false
set_option relaxedAutoImplicit false

namespace Keyspan

/-- A request to evict every page, or some number of pages that random numbers pick. -/
inductive EvictionRequest
  | all
  | picked (count : Nat) (picks : List Nat)
  deriving DecidableEq, Repr

namespace EvictionRequest

def run : EvictionRequest → StoreM Nat
  | all => Store.evictAll
  | picked count picks => Store.evictPicked count picks

def serve (s : Store) (request : EvictionRequest) : Store :=
  match request.run.run s with
  | .ok _ s => s
  | .error _ s => s

end EvictionRequest

def Store.serve (s : Store) (requests : List EvictionRequest) : Store :=
  requests.foldl EvictionRequest.serve s

end Keyspan
