import Keyspan.Table

set_option autoImplicit false
set_option relaxedAutoImplicit false

namespace Keyspan

structure Stats where
  scans : ScanStats := {}
  store : StoreStats := {}
  deriving DecidableEq, Repr

def Table.stats (t : Table) : Stats where
  scans := t.scans
  store := t.store.stats

/-- The counters of a store that no cursor reads. -/
def Store.allStats (s : Store) : Stats where
  store := s.stats

end Keyspan
