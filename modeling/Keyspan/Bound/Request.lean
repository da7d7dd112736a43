import Keyspan.Text.Blank

/-!
Requests to change a bound, as values and as configuration text.

The text is a list of settings between commas. A setting is a name and a value around its first equals
sign, or a name alone, which stands for the value `true`. Blanks around settings, names and values do
not count, settings that are blank altogether are skipped, and of two settings of one name the later
one holds.
-/

set_option autoImplicit false
set_option relaxedAutoImplicit false

namespace Keyspan

inductive Side
  | lower
  | upper
  deriving DecidableEq, Repr

inductive BoundAction
  | set
  | clear
  deriving DecidableEq, Repr

/-- A change of bounds. Setting needs a side; clearing without one clears both. -/
structure BoundRequest where
  side : Option Side := none
  action : BoundAction := .set
  inclusive : Bool := true
  deriving DecidableEq, Repr

inductive ConfigFault
  | badValue (name value : String)
  | unknownName (name : String)
  | missingSide
  deriving DecidableEq, Repr

namespace ConfigFault

def message : ConfigFault → String
  | badValue name value => "invalid value '" ++ value ++ "' for '" ++ name ++ "'"
  | unknownName name => "unknown bound configuration key '" ++ name ++ "'"
  | missingSide => "setting a bound requires bound=lower or bound=upper"

end ConfigFault

inductive Setting
  | side (s : Side)
  | action (a : BoundAction)
  | inclusive (b : Bool)
  deriving DecidableEq, Repr

namespace Setting

def halves (item : List Char) : List Char × List Char :=
  let (name, rest) := item.span (· ≠ '=')
  match rest with
  | [] => (item, "true".toList)
  | _ :: value => (Text.trim name, Text.trim value)

def parse (item : List Char) : Except ConfigFault Setting :=
  let (name, value) := halves item
  let bad := .error (.badValue (String.ofList name) (String.ofList value))
  if name = "bound".toList then
    if value = "lower".toList then .ok (side .lower)
    else if value = "upper".toList then .ok (side .upper)
    else bad
  else if name = "action".toList then
    if value = "set".toList then .ok (action .set)
    else if value = "clear".toList then .ok (action .clear)
    else bad
  else if name = "inclusive".toList then
    if value = "true".toList ∨ value = "1".toList then .ok (inclusive true)
    else if value = "false".toList ∨ value = "0".toList then .ok (inclusive false)
    else bad
  else .error (.unknownName (String.ofList name))

/-- Reads trimmed settings up to the first that does not parse. -/
def parseAll : List (List Char) → Except ConfigFault (List Setting)
  | [] => .ok []
  | item :: rest => do
    let setting ← parse item
    let settings ← parseAll rest
    pure (setting :: settings)

end Setting

namespace BoundRequest

def apply (r : BoundRequest) : Setting → BoundRequest
  | .side s => { r with side := some s }
  | .action a => { r with action := a }
  | .inclusive b => { r with inclusive := b }

def items (text : List Char) : List (List Char) :=
  ((text.splitOn ',').map Text.trim).filter (! ·.isEmpty)

def parse (text : String) : Except ConfigFault BoundRequest := do
  let settings ← Setting.parseAll (items text.toList)
  let request := settings.foldl apply {}
  if request.action = .set ∧ request.side = none then throw .missingSide
  pure request

end BoundRequest

end Keyspan
