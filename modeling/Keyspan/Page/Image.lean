import Keyspan.Checksum
import Keyspan.Compression
import Keyspan.Record
import Keyspan.Varint

/-!
Page images: the bytes that stand for a page's records while the page is evicted.

An image is a payload, the tag of its compression, and the stored check over both. The payload
counts the records; each record has its key and counts its versions; each version has its writer and
a flag byte, followed by the value if there is one.
-/

set_option autoImplicit false
set_option relaxedAutoImplicit false

namespace Keyspan

inductive ImageFault
  | tooShort
  | checksum
  | unknownCompression
  | malformed
  | compression
  deriving DecidableEq, Repr

namespace Version

def encode (v : Version) : Bytes :=
  Varint.encode v.writer ++
    match v.value with
    | none => [0]
    | some b => 1 :: Varint.encodeSlice b

/-- Reads a version. Flags other than the two there are do not read. -/
def read : Reader Version := do
  let writer ← Varint.read
  match ← Reader.byte with
  | 0 => pure ⟨writer, none⟩
  | 1 => do
    let value ← Varint.readSlice
    pure ⟨writer, some value⟩
  | _ => failure

end Version

namespace Record

def encode (r : Record) : Bytes :=
  Varint.encodeSlice r.key ++ Varint.encode r.versions.length.toUInt64 ++
    r.versions.flatMap Version.encode

def read : Reader Record := do
  let key ← Varint.readSlice
  let count ← Varint.read
  let versions ← Reader.times count.toNat Version.read
  pure ⟨key, versions⟩

end Record

namespace Image

/-- The tag byte and the four bytes of the check. -/
def trailerLength : Nat := 5

def payload (records : List Record) : Bytes :=
  Varint.encode records.length.toUInt64 ++ records.flatMap Record.encode

def readRecords : Reader (List Record) := do
  let count ← Varint.read
  Reader.times count.toNat Record.read

/-- The records in a payload that holds nothing else. -/
def ofPayload? (raw : Bytes) : Option (List Record) :=
  Reader.all? readRecords raw

def stamp (data : Bytes) (tag : UInt8) : Bytes :=
  data ++ tag :: Bytes.littleEndian 4 (Checksum.masked data tag).toNat

def encode (codec : Codec) (compression : Compression) (records : List Record) :
    Except ImageFault Bytes :=
  match compression.compress? codec (payload records) with
  | some data => .ok (stamp data compression.tag)
  | none => .error .compression

def split? (image : Bytes) : Option (Bytes × UInt8 × UInt32) :=
  if trailerLength ≤ image.length then
    let data := image.take (image.length - trailerLength)
    match image.drop (image.length - trailerLength) with
    | tag :: check => some (data, tag, (Bytes.ofLittleEndian check).toUInt32)
    | [] => none
  else none

/-- The records that an image stands for. The check is compared only when `verify` is set. -/
def decode (codec : Codec) (verify : Bool) (image : Bytes) : Except ImageFault (List Record) :=
  match split? image with
  | none => .error .tooShort
  | some (data, tag, check) =>
    if verify && !Checksum.verify data tag check then .error .checksum
    else
      match Compression.ofTag? tag with
      | none => .error .unknownCompression
      | some compression =>
        match compression.decompress? codec data with
        | none => .error .compression
        | some raw =>
          match ofPayload? raw with
          | some records => .ok records
          | none => .error .malformed

end Image

end Keyspan
