import Keyspan.Key.Basic

/-!
Key formats: the declared field types of a table's keys.

A format is spelled as a run of letters, `S` for a string, `q` or `i` for an integer, `r` for a record
number, `u` for raw bytes, and `s` for a fixed-width record whose width stands before it in decimal
digits and is 1 when absent.
-/

set_option autoImplicit false
set_option relaxedAutoImplicit false

namespace Keyspan

inductive FormatFault
  | widthOverflow
  | zeroWidth
  | widthBeforeLetter
  | unknownLetter (c : Char)
  | danglingWidth
  | noFields
  deriving DecidableEq, Repr

inductive Mismatch
  | fieldCount (expected got : Nat)
  | notTuple (expected : Nat) (got : Kind)
  | width (expected got : Nat)
  | fieldKind (expected got : Kind)
  deriving DecidableEq, Repr

structure Format where
  fields : List FieldType
  nonempty : fields ≠ []
  deriving DecidableEq, Repr

namespace FormatFault

def message : FormatFault → String
  | widthOverflow => "field width overflows"
  | zeroWidth => "fixed-length field of width 0"
  | widthBeforeLetter => "a width is only allowed before 's'"
  | unknownLetter c => "unknown field type '" ++ c.toString ++ "'"
  | danglingWidth => "dangling field width"
  | noFields => "no fields"

end FormatFault

namespace Mismatch

def message : Mismatch → String
  | fieldCount expected got =>
    "expected " ++ expected.repr ++ " key fields, got " ++ got.repr
  | notTuple expected got =>
    "expected a tuple of " ++ expected.repr ++ " fields, got a " ++ got.name ++ " key"
  | width expected got =>
    "fixed-length field expects " ++ expected.repr ++ " bytes, got " ++ got.repr
  | fieldKind expected got =>
    "expected a " ++ expected.name ++ " field, got a " ++ got.name ++ " key"

end Mismatch

namespace FieldType

def check : FieldType → Key → Except Mismatch Unit
  | string, .string _ => .ok ()
  | int, .int _ => .ok ()
  | recno, .recno _ => .ok ()
  | raw, .raw _ => .ok ()
  | fixed width _, .fixed b =>
    if b.length = width then .ok () else .error (.width width b.length)
  | ty, key => .error (.fieldKind ty.kind key.kind)

/-- Checks keys against field types in step, up to the first that does not fit. -/
def checkAll : List FieldType → List Key → Except Mismatch Unit
  | ty :: tys, key :: keys => do
    check ty key
    checkAll tys keys
  | _, _ => .ok ()

end FieldType

namespace Format

/-- Reads field types, after the digits of `width` if there were any. The widths that fit are those
below 2⁶⁴. -/
def parseFields : Option Nat → List Char → Except FormatFault (List FieldType)
  | none, [] => .ok []
  | some _, [] => .error .danglingWidth
  | width, c :: rest =>
    if c.isDigit then
      let w := width.getD 0 * 10 + (c.toNat - '0'.toNat)
      if w < UInt64.size then parseFields (some w) rest else .error .widthOverflow
    else if c = 's' then
      let w := width.getD 1
      if h : 0 < w then
        (parseFields none rest).map (FieldType.fixed w h :: ·)
      else .error .zeroWidth
    else if width.isSome then .error .widthBeforeLetter
    else
      match FieldType.ofLetter? c with
      | some ty => (parseFields none rest).map (ty :: ·)
      | none => .error (.unknownLetter c)

def parse (s : String) : Except FormatFault Format :=
  match parseFields none s.toList with
  | .ok fields => if h : fields ≠ [] then .ok ⟨fields, h⟩ else .error .noFields
  | .error fault => .error fault

def isTuple (f : Format) : Bool :=
  1 < f.fields.length

/-- Checks that a key has this format's shape: the right field types and, for tuples, exactly as
many fields. -/
def check (f : Format) (key : Key) : Except Mismatch Unit :=
  match f.fields, key with
  | [ty], key => ty.check key
  | tys, .tuple keys =>
    if keys.length = tys.length then FieldType.checkAll tys keys
    else .error (.fieldCount tys.length keys.length)
  | tys, key => .error (.notTuple tys.length key.kind)

end Format

end Keyspan
