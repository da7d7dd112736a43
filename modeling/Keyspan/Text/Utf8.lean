import Keyspan.Bytes

/-!
Reading bytes as UTF-8 without ever failing. Each longest run of bytes that begins a character but
does not complete one, and each byte that begins none, becomes the replacement character.
-/

set_option autoImplicit false
set_option relaxedAutoImplicit false

namespace Keyspan.Text.Utf8

/-- Stands for bytes that spell no character. -/
def replacement : Char := '\uFFFD'

/-- A character under way: the bits read so far, the range the next byte has to lie in, and how many
bytes follow that one. -/
structure Pending where
  bits : Nat
  least : Nat
  greatest : Nat
  more : Nat
  deriving DecidableEq, Repr

/-- What a byte opens when no character is under way: a character that it completes or refuses on
its own, or one that needs more bytes. Overlong spellings, surrogates and numbers past the last code
point are excluded by the range of the second byte. -/
def start (b : Nat) : List Char × Option Pending :=
  if b < 0x80 then ([Char.ofNat b], none)
  else if b < 0xC2 then ([replacement], none)
  else if b < 0xE0 then ([], some ⟨b - 0xC0, 0x80, 0xBF, 0⟩)
  else if b = 0xE0 then ([], some ⟨0, 0xA0, 0xBF, 1⟩)
  else if b = 0xED then ([], some ⟨0xD, 0x80, 0x9F, 1⟩)
  else if b < 0xF0 then ([], some ⟨b - 0xE0, 0x80, 0xBF, 1⟩)
  else if b = 0xF0 then ([], some ⟨0, 0x90, 0xBF, 2⟩)
  else if b < 0xF4 then ([], some ⟨b - 0xF0, 0x80, 0xBF, 2⟩)
  else if b = 0xF4 then ([], some ⟨4, 0x80, 0x8F, 2⟩)
  else ([replacement], none)

/-- The characters that a byte brings out, and the one then under way. -/
def step : Option Pending → Nat → List Char × Option Pending
  | none, b => start b
  | some p, b =>
    if p.least ≤ b ∧ b ≤ p.greatest then
      let bits := p.bits * 64 + (b - 0x80)
      match p.more with
      | 0 => ([Char.ofNat bits], none)
      | more + 1 => ([], some ⟨bits, 0x80, 0xBF, more⟩)
    else
      let (cs, next) := start b
      (replacement :: cs, next)

/-- The characters spelled by the rest of the bytes when one may be under way. -/
def chars : Option Pending → Bytes → List Char
  | none, [] => []
  | some _, [] => [replacement]
  | p, b :: rest => (step p b.toNat).1 ++ chars (step p b.toNat).2 rest

/-- The text that `b` spells, with replacement characters where it spells none. -/
def decode (b : Bytes) : String :=
  String.ofList (chars none b)

end Keyspan.Text.Utf8
