import Keyspan.Key.Format
import Keyspan.Varint

/-!
The packed form of keys, the bytes under which they are stored.

Strings and raw bytes carry their length in front, record numbers are variable-length numbers,
integers are eight bytes, most significant first, and a fixed-width record is its bytes alone. A tuple
is its fields one after the other.
-/

set_option autoImplicit false
set_option relaxedAutoImplicit false

namespace Keyspan

inductive Field
  | bytes (b : Bytes)
  | int (value : Int64)
  | recno (number : UInt64)
  deriving DecidableEq, Repr

inductive PackedFault
  | truncated (kind : Kind)
  | notUtf8
  | trailingBytes
  deriving DecidableEq, Repr

namespace PackedFault

def message : PackedFault → String
  | truncated kind => "truncated " ++ kind.name ++ " key field"
  | notUtf8 => "string key field is not utf-8"
  | trailingBytes => "trailing bytes after packed key"

end PackedFault

namespace Key

mutual

def encode : Key → Bytes
  | string s => Varint.encodeSlice (Bytes.ofText s)
  | raw b => Varint.encodeSlice b
  | int i => Bytes.bigEndian 8 i.toUInt64.toNat
  | recno n => Varint.encode n
  | fixed b => b
  | tuple fields => encodeAll fields

def encodeAll : List Key → Bytes
  | [] => []
  | key :: rest => encode key ++ encodeAll rest

end

end Key

namespace FieldType

/-- Decodes the next field as this type. Nothing is decoded from no bytes at all. -/
def read : FieldType → Reader Field
  | _, [] => none
  | string, src => (Varint.readSlice src).map fun (b, rest) => (.bytes b, rest)
  | raw, src => (Varint.readSlice src).map fun (b, rest) => (.bytes b, rest)
  | recno, src => (Varint.read src).map fun (n, rest) => (.recno n, rest)
  | int, src =>
    (Bytes.cut? 8 src).map fun (b, rest) =>
      (.int (Bytes.ofBigEndian b).toUInt64.toInt64, rest)
  | fixed width _, src => (Bytes.cut? width src).map fun (b, rest) => (.bytes b, rest)

def toKey (ty : FieldType) : Field → Except PackedFault Key
  | .int i => .ok (.int i)
  | .recno n => .ok (.recno n)
  | .bytes b =>
    match ty with
    | string =>
      match Bytes.toText? b with
      | some s => .ok (.string s)
      | none => .error .notUtf8
    | fixed _ _ => .ok (.fixed b)
    | _ => .ok (.raw b)

/-- Decodes one key for each field type, and nothing more. -/
def unpackAll : List FieldType → Bytes → Except PackedFault (List Key)
  | [], [] => .ok []
  | [], _ :: _ => .error .trailingBytes
  | ty :: tys, src =>
    match ty.read src with
    | none => .error (.truncated ty.kind)
    | some (field, rest) => do
      let key ← ty.toKey field
      let keys ← unpackAll tys rest
      pure (key :: keys)

end FieldType

namespace Format

def pack (f : Format) (key : Key) : Except Mismatch Bytes := do
  f.check key
  pure key.encode

def unpack (f : Format) (packed : Bytes) : Except PackedFault Key := do
  match ← FieldType.unpackAll f.fields packed with
  | [key] => pure key
  | keys => pure (.tuple keys)

/-- The packed key as a person reads it. Bytes that pack no key are listed. -/
def describe (f : Format) (packed : Bytes) : String :=
  match f.unpack packed with
  | .ok key => key.text
  | .error _ => packed.listing

/-- The bytes in which leading parts are looked for: those of the one field of a string or raw
format. -/
def leadField? (f : Format) (packed : Bytes) : Option Bytes :=
  match f.fields with
  | [.string] | [.raw] => (Varint.readSlice packed).map (·.1)
  | _ => none

end Format

end Keyspan
