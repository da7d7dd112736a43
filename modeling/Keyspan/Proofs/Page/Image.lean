import Keyspan.Page.Basic
import Keyspan.Proofs.Checksum
import Keyspan.Proofs.Varint

set_option autoImplicit false
set_option relaxedAutoImplicit false

namespace Keyspan

theorem Reader.pure_run {α : Type} (a : α) (src : Bytes) :
    (pure a : Reader α) src = some (a, src) := rfl

theorem Reader.times_flatMap {α : Type} (r : Reader α) (write : α → Bytes) (xs : List α)
    (rest : Bytes) (hr : ∀ x ∈ xs, ∀ rest, r (write x ++ rest) = some (x, rest)) :
    Reader.times xs.length r (xs.flatMap write ++ rest) = some (xs, rest) := by
  induction xs with
  | nil => rfl
  | cons x xs ih =>
    have hx := hr x List.mem_cons_self (xs.flatMap write ++ rest)
    have hxs := ih fun y hy => hr y (List.mem_cons_of_mem x hy)
    simp only [List.length_cons, Reader.times_succ, List.flatMap_cons, List.append_assoc, bind,
      StateT.bind, hx, Option.bind_some, hxs, Reader.pure_run]

theorem length_le_flatMap {α : Type} (write : α → Bytes) (xs : List α)
    (h : ∀ x ∈ xs, write x ≠ []) : xs.length ≤ (xs.flatMap write).length := by
  induction xs with
  | nil => simp
  | cons x xs ih =>
    have hx : 0 < (write x).length := List.length_pos_iff.2 (h x List.mem_cons_self)
    have hxs := ih fun y hy => h y (List.mem_cons_of_mem x hy)
    simp only [List.length_cons, List.flatMap_cons, List.length_append]
    omega

theorem length_le_flatMap_of_mem {α : Type} (write : α → Bytes) {xs : List α} {x : α}
    (h : x ∈ xs) : (write x).length ≤ (xs.flatMap write).length := by
  obtain ⟨before, after, rfl⟩ := List.append_of_mem h
  simp only [List.flatMap_append, List.flatMap_cons, List.length_append]
  omega

namespace Version

private theorem encode_ne_nil (v : Version) : v.encode ≠ [] := by
  simp [encode, Varint.encode_ne_nil]

private theorem length_value_le (v : Version) {b : Bytes} (h : v.value = some b) :
    b.length ≤ v.encode.length := by
  simp only [encode, h, Varint.encodeSlice, List.length_append, List.length_cons]
  omega

private theorem read_encode (v : Version) (rest : Bytes) (h : v.encode.length < 2 ^ 64) :
    read (v.encode ++ rest) = some (v, rest) := by
  obtain ⟨writer, value⟩ := v
  cases value with
  | none =>
    simp [read, encode, bind, StateT.bind, Varint.read_encode, Reader.byte, Reader.pure_run]
  | some b =>
    have hb : b.length < 2 ^ 64 := Nat.lt_of_le_of_lt (length_value_le ⟨writer, some b⟩ rfl) h
    simp [read, encode, bind, StateT.bind, Varint.read_encode, Reader.byte, Reader.pure_run,
      Varint.readSlice_encodeSlice b rest hb]

end Version

namespace Record

private theorem encode_ne_nil (r : Record) : r.encode ≠ [] := by
  simp [encode, Varint.encodeSlice, Varint.encode_ne_nil]

private theorem read_encode (r : Record) (rest : Bytes) (h : r.encode.length < 2 ^ 64) :
    read (r.encode ++ rest) = some (r, rest) := by
  obtain ⟨key, versions⟩ := r
  simp only [encode, Varint.encodeSlice, List.length_append] at h
  have hkey : key.length < 2 ^ 64 := by omega
  have hcount : versions.length < 2 ^ 64 := by
    have := length_le_flatMap Version.encode versions fun v _ => v.encode_ne_nil
    omega
  have hversions : ∀ v ∈ versions, ∀ rest, Version.read (v.encode ++ rest) = some (v, rest) := by
    intro v hv rest
    have := length_le_flatMap_of_mem Version.encode hv
    exact Version.read_encode v rest (by omega)
  simp only [read, encode, bind, StateT.bind, List.append_assoc,
    Varint.readSlice_encodeSlice key _ hkey, Option.bind_some, Varint.read_encode, toNat_toUInt64 hcount,
    Reader.times_flatMap Version.read Version.encode versions rest hversions, Reader.pure_run]

end Record

namespace Image

variable {codec : Codec}

theorem ofPayload?_payload (records : List Record) (h : (payload records).length < 2 ^ 64) :
    ofPayload? (payload records) = some records := by
  simp only [payload, List.length_append] at h
  have hcount : records.length < 2 ^ 64 := by
    have := length_le_flatMap Record.encode records fun r _ => r.encode_ne_nil
    omega
  have hrecords : ∀ r ∈ records, ∀ rest, Record.read (r.encode ++ rest) = some (r, rest) := by
    intro r hr rest
    have := length_le_flatMap_of_mem Record.encode hr
    exact Record.read_encode r rest (by omega)
  have htimes := Reader.times_flatMap Record.read Record.encode records [] hrecords
  rw [List.append_nil] at htimes
  have hread : readRecords (payload records) = some (records, []) := by
    simp only [readRecords, payload, bind, StateT.bind, Varint.read_encode, Option.bind_some,
      toNat_toUInt64 hcount, htimes]
  simp [ofPayload?, Reader.all?, hread]

theorem split?_append {data check : Bytes} {tag : UInt8} (h : check.length = 4) :
    split? (data ++ tag :: check) = some (data, tag, (Bytes.ofLittleEndian check).toUInt32) := by
  have hlen : (data ++ tag :: check).length - trailerLength = data.length := by
    simp [trailerLength, h]
  have hle : trailerLength ≤ (data ++ tag :: check).length := by
    simp [trailerLength, h]
  rw [split?, if_pos hle, hlen, List.drop_left, List.take_left]

private theorem split?_stamp (data : Bytes) (tag : UInt8) :
    split? (stamp data tag) = some (data, tag, Checksum.masked data tag) := by
  have hm : (Checksum.masked data tag).toNat < 256 ^ 4 := (Checksum.masked data tag).toNat_lt
  rw [stamp, split?_append (Bytes.length_littleEndian 4 _), Bytes.ofLittleEndian_littleEndian 4 _ hm,
    Nat.toUInt32_eq, UInt32.ofNat_toNat]

/-- Whichever block a payload decompresses from, its image stands for the records of the payload,
whether its check is compared or not. -/
theorem decode_stamp (verify : Bool) {c : Compression} {records : List Record} {block : Bytes}
    (hblock : c.decompress? codec block = some (payload records))
    (h : (payload records).length < 2 ^ 64) :
    decode codec verify (stamp block c.tag) = .ok records := by
  simp [decode, split?_stamp, Checksum.verify_masked, Compression.ofTag?_tag, hblock,
    ofPayload?_payload records h]

/-- The image of some records stands for those records, whether its check is compared or not. -/
theorem decode_encode (verify : Bool) {c : Compression} {records : List Record} {image : Bytes}
    (himage : encode codec c records = .ok image) (h : (payload records).length < 2 ^ 64) :
    decode codec verify image = .ok records := by
  rw [encode] at himage
  split at himage
  · rename_i data hdata
    obtain rfl := Except.ok.inj himage
    exact decode_stamp verify (Compression.decompress?_of_compress? hdata) h
  · cases himage

theorem exists_encode {c : Compression} {records : List Record}
    (h : (payload records).length < c.limit codec) : ∃ image, encode codec c records = .ok image := by
  obtain ⟨data, hdata⟩ := c.exists_compress? h
  exact ⟨stamp data c.tag, by rw [encode, hdata]⟩

end Image

end Keyspan
