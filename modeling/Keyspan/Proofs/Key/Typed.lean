import Keyspan.Error
import Keyspan.Key.Order
import Keyspan.Proofs.Key.Shape
import Keyspan.Proofs.Varint

set_option autoImplicit false
set_option relaxedAutoImplicit false

namespace Keyspan

open Std

namespace Key

def parts : Key → List Key
  | tuple keys => keys
  | key => [key]

def ofParts : List Key → Key
  | [key] => key
  | keys => tuple keys

def field : Key → Field
  | string s => .bytes (Bytes.ofText s)
  | int i => .int i
  | recno n => .recno n
  | fixed b => .bytes b
  | raw b => .bytes b
  | tuple _ => .bytes []

/-- The typed order: tuples field by field from the left. -/
def compare (a b : Key) : Ordering :=
  List.compareLex Field.compare (a.parts.map field) (b.parts.map field)

def Measured : Key → Prop
  | string s => (Bytes.ofText s).length < 2 ^ 64
  | raw b => b.length < 2 ^ 64
  | _ => True

theorem measured_of_length {key : Key} (h : key.encode.length < 2 ^ 64) : key.Measured := by
  have hslice : ∀ b, (Varint.encodeSlice b).length < 2 ^ 64 → b.length < 2 ^ 64 := by
    intro b hb
    rw [Varint.encodeSlice, List.length_append] at hb
    omega
  cases key with
  | string s => exact hslice _ (by rwa [encode] at h)
  | raw b => exact hslice _ (by rwa [encode] at h)
  | _ => trivial

theorem measured_of_mem {keys : List Key} (h : (encodeAll keys).length < 2 ^ 64) :
    ∀ key ∈ keys, key.Measured := by
  induction keys with
  | nil => exact nofun
  | cons key keys ih =>
    rw [encodeAll, List.length_append] at h
    intro k hk
    rcases List.mem_cons.1 hk with rfl | hk
    · exact measured_of_length (by omega)
    · exact ih (by omega) k hk

instance : TransCmp Key.compare where
  eq_swap {a b} := by
    unfold Key.compare
    exact OrientedCmp.eq_swap
  isLE_trans {a b c} hab hbc := by
    unfold Key.compare at hab hbc ⊢
    exact TransCmp.isLE_trans hab hbc

end Key

namespace FieldType

variable {ty : FieldType} {key : Key}

theorem read_of_ne_nil {src : Bytes} (h : src ≠ []) (ty : FieldType) :
    ty.read src = match ty with
      | string => (Varint.readSlice src).map fun (b, rest) => (.bytes b, rest)
      | raw => (Varint.readSlice src).map fun (b, rest) => (.bytes b, rest)
      | recno => (Varint.read src).map fun (n, rest) => (.recno n, rest)
      | int => (Bytes.cut? 8 src).map fun (b, rest) =>
          (.int (Bytes.ofBigEndian b).toUInt64.toInt64, rest)
      | fixed width _ => (Bytes.cut? width src).map fun (b, rest) => (.bytes b, rest) := by
  obtain ⟨b, src, rfl⟩ := List.exists_cons_of_ne_nil h
  cases ty <;> rfl

private theorem read_slice {b : Bytes} (rest : Bytes) (h : b.length < 2 ^ 64) :
    Varint.encodeSlice b ++ rest ≠ [] ∧
      Varint.readSlice (Varint.encodeSlice b ++ rest) = some (b, rest) := by
  have hne : Varint.encode b.length.toUInt64 ≠ [] := Varint.encode_ne_nil _
  exact ⟨by simp [Varint.encodeSlice, hne], Varint.readSlice_encodeSlice b rest h⟩

private theorem cut_field {b : Bytes} {width : Nat} (hlen : b.length = width) (hpos : 0 < width)
    (rest : Bytes) : b ++ rest ≠ [] ∧ Bytes.cut? width (b ++ rest) = some (b, rest) := by
  have hne : b ≠ [] := List.ne_nil_of_length_pos (by omega)
  refine ⟨by simp [hne], ?_⟩
  rw [← hlen]
  exact Bytes.cut?_append b rest

theorem read_encode (hkey : ty.check key = .ok ()) (hsize : key.Measured)
    (rest : Bytes) : ty.read (key.encode ++ rest) = some (key.field, rest) := by
  cases ty with
  | string =>
    cases key with
    | string s =>
      rw [Key.encode]
      obtain ⟨hne, hread⟩ := read_slice rest hsize
      rw [read_of_ne_nil hne, hread]
      rfl
    | _ => cases hkey
  | raw =>
    cases key with
    | raw b =>
      rw [Key.encode]
      obtain ⟨hne, hread⟩ := read_slice rest hsize
      rw [read_of_ne_nil hne, hread]
      rfl
    | _ => cases hkey
  | recno =>
    cases key with
    | recno n =>
      rw [Key.encode]
      have hne : Varint.encode n ++ rest ≠ [] := by simp [Varint.encode_ne_nil n]
      rw [read_of_ne_nil hne, Varint.read_encode]
      rfl
    | _ => cases hkey
  | int =>
    cases key with
    | int i =>
      rw [Key.encode]
      have hlen : (Bytes.bigEndian 8 i.toUInt64.toNat).length = 8 := Bytes.length_bigEndian _ _
      obtain ⟨hne, hcut⟩ := cut_field hlen (by decide) rest
      have hvalue : (Bytes.ofBigEndian (Bytes.bigEndian 8 i.toUInt64.toNat)).toUInt64.toInt64 =
          i := by
        rw [Bytes.ofBigEndian_bigEndian 8 _ i.toUInt64.toNat_lt]
        simp
      simp only [read_of_ne_nil hne, hcut, Option.map_some, hvalue]
      rfl
    | _ => cases hkey
  | fixed width pos =>
    cases key with
    | fixed b =>
      rw [check] at hkey
      split at hkey
      next hlen =>
        rw [Key.encode]
        obtain ⟨hne, hcut⟩ := cut_field hlen pos rest
        rw [read_of_ne_nil hne]
        dsimp only
        rw [hcut]
        rfl
      next => cases hkey
    | _ => cases hkey

theorem toKey_field (hkey : ty.check key = .ok ()) : ty.toKey key.field = .ok key := by
  cases ty with
  | string =>
    cases key with
    | string s => simp only [Key.field, toKey, Bytes.toText?_ofText]
    | _ => cases hkey
  | raw =>
    cases key with
    | raw b => rfl
    | _ => cases hkey
  | recno =>
    cases key with
    | recno n => rfl
    | _ => cases hkey
  | int =>
    cases key with
    | int i => rfl
    | _ => cases hkey
  | fixed width pos =>
    cases key with
    | fixed b => rfl
    | _ => cases hkey

theorem parts_eq (hkey : ty.check key = .ok ()) : key.parts = [key] := by
  cases key with
  | tuple keys => cases ty <;> cases hkey
  | _ => rfl

theorem decodeAll_encodeAll {tys : List FieldType} {keys : List Key}
    (hlen : keys.length = tys.length) (hkeys : checkAll tys keys = .ok ())
    (hsize : ∀ key ∈ keys, key.Measured) :
    decodeAll tys (Key.encodeAll keys) = keys.map Key.field ∧
      unpackAll tys (Key.encodeAll keys) = .ok keys := by
  induction tys generalizing keys with
  | nil =>
    obtain rfl := List.length_eq_zero_iff.1 hlen
    exact ⟨rfl, rfl⟩
  | cons ty tys ih =>
    obtain ⟨key, keys, rfl⟩ := List.exists_cons_of_length_eq_add_one hlen
    obtain ⟨hkey, hrest⟩ := checkAll_cons.1 hkeys
    rw [Key.encodeAll]
    have hread := read_encode hkey (hsize key List.mem_cons_self) (Key.encodeAll keys)
    obtain ⟨hdecode, hunpack⟩ := ih (Nat.succ.inj hlen) hrest fun k hk =>
      hsize k (List.mem_cons_of_mem key hk)
    constructor
    · simp only [decodeAll, hread, hdecode, List.map_cons]
    · simp only [unpackAll, hread, toKey_field hkey, hunpack]
      rfl

theorem eq_of_map_field {tys : List FieldType} {keys keys' : List Key}
    (hlen : keys.length = tys.length) (hlen' : keys'.length = tys.length)
    (hkeys : checkAll tys keys = .ok ()) (hkeys' : checkAll tys keys' = .ok ())
    (h : keys.map Key.field = keys'.map Key.field) : keys = keys' := by
  induction tys generalizing keys keys' with
  | nil =>
    obtain rfl := List.length_eq_zero_iff.1 hlen
    exact (List.length_eq_zero_iff.1 hlen').symm
  | cons ty tys ih =>
    obtain ⟨key, keys, rfl⟩ := List.exists_cons_of_length_eq_add_one hlen
    obtain ⟨key', keys', rfl⟩ := List.exists_cons_of_length_eq_add_one hlen'
    obtain ⟨hkey, hrest⟩ := checkAll_cons.1 hkeys
    obtain ⟨hkey', hrest'⟩ := checkAll_cons.1 hkeys'
    rw [List.map_cons, List.map_cons] at h
    obtain ⟨hfield, hfields⟩ := List.cons.inj h
    have hsame := toKey_field hkey
    rw [hfield, toKey_field hkey'] at hsame
    rw [Except.ok.inj hsame, ih (Nat.succ.inj hlen) (Nat.succ.inj hlen') hrest hrest' hfields]

end FieldType

namespace Format

variable {f : Format} {key a b : Key}

/-- A key that passes the check has a part for each field, and is put together from them. -/
theorem check_parts (h : f.check key = .ok ()) :
    key.parts.length = f.fields.length ∧ FieldType.checkAll f.fields key.parts = .ok () ∧
      Key.encodeAll key.parts = key.encode ∧ .ofParts key.parts = key := by
  obtain ⟨fields, hne⟩ := f
  match fields, hne with
  | [], hne => exact absurd rfl hne
  | [ty], _ =>
    have hkey : ty.check key = .ok () := h
    rw [FieldType.parts_eq hkey]
    refine ⟨rfl, FieldType.checkAll_cons.2 ⟨hkey, rfl⟩, ?_, rfl⟩
    rw [Key.encodeAll, Key.encodeAll, List.append_nil]
  | ty :: ty' :: tys, _ =>
    cases key with
    | tuple keys =>
      simp only [check] at h
      split at h
      next hlen =>
        refine ⟨hlen, h, by rw [Key.parts, Key.encode], ?_⟩
        obtain _ | ⟨k, _ | ⟨k', keys⟩⟩ := keys
        · cases hlen
        · cases hlen
        · rfl
      next => cases h
    | _ => cases h

theorem packKey_eq_ok_iff {packed : Bytes} :
    f.packKey key = .ok packed ↔ f.check key = .ok () ∧ packed = key.encode := by
  rw [packKey, pack]
  cases f.check key with
  | error e => exact ⟨nofun, nofun⟩
  | ok u =>
    constructor
    · intro h
      exact ⟨rfl, (Except.ok.inj h).symm⟩
    · rintro ⟨-, rfl⟩
      rfl

theorem unpackKey_eq_ok_iff {b : Bytes} : f.unpackKey b = .ok key ↔
    ∃ keys, FieldType.unpackAll f.fields b = .ok keys ∧ .ofParts keys = key := by
  have hput : f.unpack b = (FieldType.unpackAll f.fields b).map .ofParts := by
    rw [unpack]
    cases FieldType.unpackAll f.fields b with
    | error e => rfl
    | ok keys =>
      match keys with
      | [] => rfl
      | [_] => rfl
      | _ :: _ :: _ => rfl
  rw [unpackKey, hput]
  cases FieldType.unpackAll f.fields b with
  | error e => exact ⟨nofun, nofun⟩
  | ok keys =>
    constructor
    · intro h
      exact ⟨keys, rfl, Except.ok.inj h⟩
    · rintro ⟨keys', hkeys, rfl⟩
      obtain rfl := Except.ok.inj hkeys
      rfl

/-- A key that passes the check unpacks from its packed form. -/
theorem unpackKey_encode (h : f.check key = .ok ()) (hsize : key.encode.length < 2 ^ 64) :
    f.unpackKey key.encode = .ok key := by
  obtain ⟨hlen, hparts, hencode, hwhole⟩ := check_parts h
  have hunpack := (FieldType.decodeAll_encodeAll hlen hparts
    (Key.measured_of_mem (hencode ▸ hsize))).2
  rw [hencode] at hunpack
  exact unpackKey_eq_ok_iff.2 ⟨key.parts, hunpack, hwhole⟩

/-- Packed forms compare as the keys do. -/
theorem compare_encode (ha : f.check a = .ok ()) (hb : f.check b = .ok ())
    (hsa : a.encode.length < 2 ^ 64) (hsb : b.encode.length < 2 ^ 64) :
    (KeyOrder.typed f).compare a.encode b.encode = a.compare b := by
  obtain ⟨hlena, hpartsa, hencodea, -⟩ := check_parts ha
  obtain ⟨hlenb, hpartsb, hencodeb, -⟩ := check_parts hb
  have hdecodea := (FieldType.decodeAll_encodeAll hlena hpartsa
    (Key.measured_of_mem (hencodea ▸ hsa))).1
  have hdecodeb := (FieldType.decodeAll_encodeAll hlenb hpartsb
    (Key.measured_of_mem (hencodeb ▸ hsb))).1
  rw [hencodea] at hdecodea
  rw [hencodeb] at hdecodeb
  rw [KeyOrder.compare_typed, hdecodea, hdecodeb]
  rfl

theorem eq_of_compare (ha : f.check a = .ok ()) (hb : f.check b = .ok ())
    (h : a.compare b = .eq) : a = b := by
  obtain ⟨hlena, hpartsa, -, hwholea⟩ := check_parts ha
  obtain ⟨hlenb, hpartsb, -, hwholeb⟩ := check_parts hb
  have hparts : a.parts = b.parts :=
    FieldType.eq_of_map_field hlena hlenb hpartsa hpartsb (LawfulEqCmp.eq_of_compare h)
  rw [← hwholea, ← hwholeb, hparts]

end Format

end Keyspan
