import Keyspan.Text.Extending
import Keyspan.Text.Unprintable

/-!
Quoted text for messages. Everything between the quotes shows on the page: what would not, or would
merge into its neighbour, is written as its code point.
-/

set_option autoImplicit false
set_option relaxedAutoImplicit false

namespace Keyspan.Text

def codePoint (c : Char) : List Char :=
  ['\\', 'u', '\x7b'] ++ Nat.toDigits 16 c.toNat ++ ['\x7d']

def escape (c : Char) : List Char :=
  if c = '\x00' then ['\\', '0']
  else if c = '\t' then ['\\', 't']
  else if c = '\r' then ['\\', 'r']
  else if c = '\n' then ['\\', 'n']
  else if c = '\\' then ['\\', '\\']
  else if c = '"' then ['\\', '"']
  else if isExtending c || isUnprintable c then codePoint c
  else [c]

def quote (s : String) : String :=
  String.ofList (['"'] ++ s.toList.flatMap escape ++ ['"'])

end Keyspan.Text
