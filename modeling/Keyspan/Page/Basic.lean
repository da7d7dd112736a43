import Keyspan.Page.Image

set_option autoImplicit false
set_option relaxedAutoImplicit false

namespace Keyspan

inductive Body
  | resident (records : List Record)
  | evicted (image : Bytes)
  deriving DecidableEq, Repr

/-- A page. The smallest key that it may hold stays known while the page is evicted. -/
structure Page where
  first : Bytes
  body : Body
  deriving DecidableEq, Repr

namespace Page

def isResident (p : Page) : Bool :=
  match p.body with
  | .resident _ => true
  | .evicted _ => false

def records? (p : Page) : Option (List Record) :=
  match p.body with
  | .resident records => some records
  | .evicted _ => none

/-- The page with its records replaced by their image, or nothing when it was evicted already. -/
def evict? (codec : Codec) (compression : Compression) (p : Page) :
    Except ImageFault (Option Page) :=
  match p.body with
  | .resident records => do
    let image ← Image.encode codec compression records
    pure (some { p with body := .evicted image })
  | .evicted _ => pure none

/-- The page with its records back in memory, or nothing when they were there already. -/
def reload? (codec : Codec) (verify : Bool) (p : Page) : Except ImageFault (Option Page) :=
  match p.body with
  | .resident _ => pure none
  | .evicted image => do
    let records ← Image.decode codec verify image
    pure (some { p with body := .resident records })

end Page

end Keyspan
