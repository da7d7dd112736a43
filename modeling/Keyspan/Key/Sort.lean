import Keyspan.Error
import Keyspan.Key.Order

set_option autoImplicit false
set_option relaxedAutoImplicit false

namespace Keyspan.Format

/-- The keys in the order of their packed forms, equal ones as they were given. -/
def sortKeys (f : Format) (keys : List Key) : Except Error (List Key) := do
  let packed ← keys.mapM f.packKey
  (packed.mergeSort fun a b => ((KeyOrder.typed f).compare a b).isLE).mapM f.unpackKey

end Keyspan.Format
