import Keyspan.Proofs.Key.Typed

/-!
Packing keys and unpacking them again.

A field decodes from a part of its own at the front of the bytes, whatever follows. So no packed key goes
on as another one, and bytes that unpack differ from the packed form of their key in nothing but the
spelling of numbers, of which the packed form has the shortest.
-/

set_option autoImplicit false
set_option relaxedAutoImplicit false

namespace Keyspan

open Std

/-- The number at the front of the bytes, if there is one, has no shorter spelling. -/
def Varint.Terse (src : Bytes) : Prop :=
  ∀ spelling rest n, src = spelling ++ rest → Spells spelling n →
    ∀ other, Spells other n → spelling.length ≤ other.length

namespace Varint

private theorem terse_iff {n : UInt64} {spelling : Bytes} (h : Spells spelling n.toNat)
    (rest : Bytes) :
    Terse (spelling ++ rest) ↔ encode n = spelling := by
  rw [encode_eq_iff h]
  constructor
  · exact fun hterse => hterse spelling rest n.toNat rfl h
  · intro hshort front back m heq hfront
    obtain ⟨rfl, rfl, -⟩ := h.append_inj hfront heq
    exact hshort

theorem encodeSlice_spelled {spelling b : Bytes} (h : Spells spelling b.length)
    (hsize : b.length < 2 ^ 64) (rest : Bytes) :
    (encodeSlice b).length ≤ (spelling ++ b).length ∧
      (encodeSlice b = spelling ++ b ↔ Terse (spelling ++ b ++ rest)) := by
  have hnum : Spells spelling b.length.toUInt64.toNat := (toNat_toUInt64 hsize).symm ▸ h
  have hlen := hnum.length_spell_le maxGroups
  rw [List.append_assoc, terse_iff hnum, encodeSlice, List.append_left_inj]
  refine ⟨?_, Iff.rfl⟩
  rw [List.length_append, List.length_append]
  exact Nat.add_le_add_right hlen _

end Varint

namespace FieldType

/-- Bytes that decode as one field of a type, whichever way their number or length is spelled. -/
inductive Spells : FieldType → Bytes → Field → Prop
  | string {spelling b : Bytes} (length : Varint.Spells spelling b.length)
    (groups : spelling.length ≤ Varint.maxGroups) (size : b.length < 2 ^ 64) :
    Spells string (spelling ++ b) (.bytes b)
  | raw {spelling b : Bytes} (length : Varint.Spells spelling b.length)
    (groups : spelling.length ≤ Varint.maxGroups) (size : b.length < 2 ^ 64) :
    Spells raw (spelling ++ b) (.bytes b)
  | recno {spelling : Bytes} {n : UInt64} (number : Varint.Spells spelling n.toNat)
    (groups : spelling.length ≤ Varint.maxGroups) : Spells recno spelling (.recno n)
  | int {b : Bytes} (length : b.length = 8) :
    Spells int b (.int (Bytes.ofBigEndian b).toUInt64.toInt64)
  | fixed {width : Nat} (pos : 0 < width) {b : Bytes} (length : b.length = width) :
    Spells (fixed width pos) b (.bytes b)

variable {ty : FieldType} {part src rest : Bytes} {field : Field} {key : Key}

private theorem Spells.ne_nil (h : ty.Spells part field) : part ≠ [] := by
  cases h with
  | string length => simp [length.ne_nil]
  | raw length => simp [length.ne_nil]
  | recno number => exact number.ne_nil
  | int length => exact List.ne_nil_of_length_pos (by omega)
  | fixed pos length => exact List.ne_nil_of_length_pos (by omega)

theorem read_eq_some_iff : ty.read src = some (field, rest) ↔
    ∃ part, ty.Spells part field ∧ src = part ++ rest := by
  constructor
  · intro h
    have hne : src ≠ [] := by
      rintro rfl
      cases ty <;> cases h
    rw [read_of_ne_nil hne] at h
    cases ty with
    | string =>
      obtain ⟨⟨b, left⟩, hread, heq⟩ := Option.map_eq_some_iff.1 h
      obtain ⟨rfl, rfl⟩ := Prod.mk.inj heq
      obtain ⟨spelling, hspells, hlen, hsize, rfl⟩ := Varint.readSlice_eq_some_iff.1 hread
      exact ⟨_, .string hspells hlen hsize, (List.append_assoc _ _ _).symm⟩
    | raw =>
      obtain ⟨⟨b, left⟩, hread, heq⟩ := Option.map_eq_some_iff.1 h
      obtain ⟨rfl, rfl⟩ := Prod.mk.inj heq
      obtain ⟨spelling, hspells, hlen, hsize, rfl⟩ := Varint.readSlice_eq_some_iff.1 hread
      exact ⟨_, .raw hspells hlen hsize, (List.append_assoc _ _ _).symm⟩
    | recno =>
      obtain ⟨⟨n, left⟩, hread, heq⟩ := Option.map_eq_some_iff.1 h
      obtain ⟨rfl, rfl⟩ := Prod.mk.inj heq
      obtain ⟨spelling, hspells, hlen, rfl⟩ := Varint.read_eq_some_iff.1 hread
      exact ⟨_, .recno hspells hlen, rfl⟩
    | int =>
      obtain ⟨⟨b, left⟩, hcut, heq⟩ := Option.map_eq_some_iff.1 h
      obtain ⟨rfl, rfl⟩ := Prod.mk.inj heq
      obtain ⟨rfl, hlen⟩ := Bytes.cut?_eq_some_iff.1 hcut
      exact ⟨_, .int hlen, rfl⟩
    | fixed width pos =>
      obtain ⟨⟨b, left⟩, hcut, heq⟩ := Option.map_eq_some_iff.1 h
      obtain ⟨rfl, rfl⟩ := Prod.mk.inj heq
      obtain ⟨rfl, hlen⟩ := Bytes.cut?_eq_some_iff.1 hcut
      exact ⟨_, .fixed pos hlen, rfl⟩
  · rintro ⟨part, hspells, rfl⟩
    have hne : part ++ rest ≠ [] := by simp [hspells.ne_nil]
    rw [read_of_ne_nil hne]
    cases hspells with
    | string hspells hlen hsize =>
      rw [Varint.readSlice_eq_some_iff.2 ⟨_, hspells, hlen, hsize, List.append_assoc _ _ _⟩]
      rfl
    | raw hspells hlen hsize =>
      rw [Varint.readSlice_eq_some_iff.2 ⟨_, hspells, hlen, hsize, List.append_assoc _ _ _⟩]
      rfl
    | recno hspells hlen =>
      rw [Varint.read_eq_some_iff.2 ⟨_, hspells, hlen, rfl⟩]
      rfl
    | int hlen =>
      rw [Bytes.cut?_eq_some_iff.2 ⟨rfl, hlen⟩]
      rfl
    | fixed pos hlen =>
      dsimp only
      rw [Bytes.cut?_eq_some_iff.2 ⟨rfl, hlen⟩]
      rfl

theorem read_append (h : ty.read src = some (field, rest)) (more : Bytes) :
    ty.read (src ++ more) = some (field, rest ++ more) := by
  obtain ⟨part, hspells, rfl⟩ := read_eq_some_iff.1 h
  exact read_eq_some_iff.2 ⟨part, hspells, List.append_assoc _ _ _⟩

theorem read_cut (hkey : ty.check key = .ok ()) (hsize : key.Measured) {front back : Bytes}
    (hcut : key.encode = front ++ back) (hne : back ≠ []) : ty.read front = none := by
  cases hread : ty.read front with
  | none => rfl
  | some p =>
    obtain ⟨field, rest⟩ := p
    have hlonger := read_append hread back
    have hwhole := read_encode hkey hsize []
    rw [List.append_nil, hcut, hlonger] at hwhole
    have hnil : rest ++ back = [] := (Prod.mk.inj (Option.some.inj hwhole)).2
    exact absurd (List.append_eq_nil_iff.1 hnil).2 hne

theorem unpackAll_cut {tys : List FieldType} {keys : List Key} (hlen : keys.length = tys.length)
    (hkeys : checkAll tys keys = .ok ()) (hsize : ∀ key ∈ keys, key.Measured) {front back : Bytes}
    (hcut : Key.encodeAll keys = front ++ back) (hne : back ≠ []) :
    ∃ kind, unpackAll tys front = .error (.truncated kind) := by
  induction tys generalizing keys front with
  | nil =>
    obtain rfl := List.length_eq_zero_iff.1 hlen
    exact absurd (List.append_eq_nil_iff.1 hcut.symm).2 hne
  | cons ty tys ih =>
    obtain ⟨key, keys, rfl⟩ := List.exists_cons_of_length_eq_add_one hlen
    obtain ⟨hkey, hrest⟩ := checkAll_cons.1 hkeys
    have hkeysize := hsize key List.mem_cons_self
    rw [Key.encodeAll] at hcut
    -- the cut is in the first field, or behind it
    have hwhere : (∃ back', key.encode = front ++ back' ∧ back' ≠ []) ∨
        ∃ front', front = key.encode ++ front' ∧ Key.encodeAll keys = front' ++ back := by
      rcases List.append_eq_append_iff.1 hcut with ⟨front', hfront, hback⟩ | ⟨back', hfront, hback⟩
      · exact Or.inr ⟨front', hfront, hback⟩
      · by_cases hnil : back' = []
        · subst hnil
          exact Or.inr ⟨[], by simpa using hfront.symm, by simpa using hback.symm⟩
        · exact Or.inl ⟨back', hfront, hnil⟩
    rcases hwhere with ⟨back', hfront, hback'⟩ | ⟨front', rfl, hback⟩
    · refine ⟨ty.kind, ?_⟩
      simp only [unpackAll, read_cut hkey hkeysize hfront hback']
    · obtain ⟨kind, hunpack⟩ := ih (Nat.succ.inj hlen) hrest
        (fun k hk => hsize k (List.mem_cons_of_mem key hk)) hback
      refine ⟨kind, ?_⟩
      simp only [unpackAll, read_encode hkey hkeysize, toKey_field hkey, hunpack]
      rfl

theorem unpackAll_extended {tys : List FieldType} {keys : List Key}
    (hlen : keys.length = tys.length) (hkeys : checkAll tys keys = .ok ())
    (hsize : ∀ key ∈ keys, key.Measured) {more : Bytes} (hne : more ≠ []) :
    unpackAll tys (Key.encodeAll keys ++ more) = .error .trailingBytes := by
  induction tys generalizing keys with
  | nil =>
    obtain rfl := List.length_eq_zero_iff.1 hlen
    obtain ⟨b, more, rfl⟩ := List.exists_cons_of_ne_nil hne
    rfl
  | cons ty tys ih =>
    obtain ⟨key, keys, rfl⟩ := List.exists_cons_of_length_eq_add_one hlen
    obtain ⟨hkey, hrest⟩ := checkAll_cons.1 hkeys
    have hread := read_encode hkey (hsize key List.mem_cons_self) (Key.encodeAll keys ++ more)
    rw [Key.encodeAll, List.append_assoc]
    simp only [unpackAll, hread, toKey_field hkey,
      ih (Nat.succ.inj hlen) hrest fun k hk => hsize k (List.mem_cons_of_mem key hk)]
    rfl

/-- The number at the front of a field of this type, if it has one there, has no shorter spelling. -/
def Terse (ty : FieldType) (src : Bytes) : Prop :=
  match ty with
  | string | raw | recno => Varint.Terse src
  | int | fixed _ _ => True

/-- All numbers in some fields have no shorter spelling. -/
def TerseAll : List FieldType → Bytes → Prop
  | [], _ => True
  | ty :: tys, src =>
    ty.Terse src ∧ ∀ field rest, ty.read src = some (field, rest) → TerseAll tys rest

/-- The key that a part stands for is of the field's type, and its packed form is the part with its
number in the shortest spelling. -/
theorem Spells.toKey_sound (h : ty.Spells part field) (hkey : ty.toKey field = .ok key)
    (rest : Bytes) :
    ty.Admits key ∧ key.field = field ∧ key.Measured ∧ key.encode.length ≤ part.length ∧
      (key.encode = part ↔ ty.Terse (part ++ rest)) := by
  cases h with
  | @string spelling b hspells hlen hsize =>
    rw [toKey] at hkey
    cases htext : Bytes.toText? b with
    | none =>
      rw [htext] at hkey
      cases hkey
    | some s =>
      rw [htext] at hkey
      obtain rfl := Except.ok.inj hkey
      obtain rfl := Bytes.ofText_of_toText? htext
      rw [Key.encode]
      exact ⟨.string s, rfl, hsize, Varint.encodeSlice_spelled hspells hsize rest⟩
  | @raw spelling b hspells hlen hsize =>
    obtain rfl := Except.ok.inj hkey
    rw [Key.encode]
    exact ⟨.raw b, rfl, hsize, Varint.encodeSlice_spelled hspells hsize rest⟩
  | @recno spelling n hspells hlen =>
    obtain rfl := Except.ok.inj hkey
    rw [Key.encode]
    exact ⟨.recno n, rfl, trivial, hspells.length_spell_le Varint.maxGroups,
      (Varint.terse_iff hspells rest).symm⟩
  | @int b hlen =>
    obtain rfl := Except.ok.inj hkey
    have hvalue : Bytes.ofBigEndian part < 2 ^ 64 := by
      have hlt := Bytes.ofBigEndian_lt part
      rwa [hlen] at hlt
    have hback : Key.encode (.int (Bytes.ofBigEndian part).toUInt64.toInt64) = part := by
      rw [Key.encode, UInt64.toUInt64_toInt64, toNat_toUInt64 hvalue, ← hlen]
      exact Bytes.bigEndian_ofBigEndian part
    exact ⟨.int _, rfl, trivial, Nat.le_of_eq (congrArg List.length hback),
      fun _ => trivial, fun _ => hback⟩
  | fixed pos hlen =>
    obtain rfl := Except.ok.inj hkey
    exact ⟨.fixed pos hlen, rfl, trivial, Nat.le_refl _, fun _ => trivial, fun _ => rfl⟩

/-- Keys that unpack are of the types they are unpacked as. They pack to bytes that decode to the same
fields and are the shortest that do. -/
theorem unpackAll_sound {tys : List FieldType} {keys : List Key}
    (h : unpackAll tys src = .ok keys) :
    List.Forall₂ Admits tys keys ∧ decodeAll tys src = keys.map Key.field ∧
      (∀ key ∈ keys, key.Measured) ∧ (Key.encodeAll keys).length ≤ src.length ∧
      (Key.encodeAll keys = src ↔ TerseAll tys src) := by
  induction tys generalizing keys src with
  | nil =>
    cases src with
    | cons b src => cases h
    | nil =>
      obtain rfl := Except.ok.inj h
      exact ⟨.nil, rfl, nofun, Nat.le_refl _, fun _ => trivial, fun _ => rfl⟩
  | cons ty tys ih =>
    rw [unpackAll] at h
    cases hread : ty.read src with
    | none =>
      rw [hread] at h
      cases h
    | some p =>
      obtain ⟨field, rest⟩ := p
      rw [hread] at h
      dsimp only at h
      cases hkey : ty.toKey field with
      | error e =>
        rw [hkey] at h
        cases h
      | ok key =>
        cases hkeys : unpackAll tys rest with
        | error e =>
          rw [hkey, hkeys] at h
          cases h
        | ok others =>
          rw [hkey, hkeys] at h
          obtain rfl := Except.ok.inj h
          obtain ⟨part, hspells, rfl⟩ := read_eq_some_iff.1 hread
          obtain ⟨hadmits, hfield, hmeasured, hlen, hterse⟩ := hspells.toKey_sound hkey rest
          obtain ⟨hadmitsAll, hdecode, hmeasuredAll, hlenAll, hterseAll⟩ := ih hkeys
          refine ⟨.cons hadmits hadmitsAll, ?_, ?_, ?_, ?_⟩
          · simp only [decodeAll, hread, hdecode, hfield, List.map_cons]
          · exact List.forall_mem_cons.2 ⟨hmeasured, hmeasuredAll⟩
          · rw [Key.encodeAll, List.length_append, List.length_append]
            exact Nat.add_le_add hlen hlenAll
          · rw [Key.encodeAll, TerseAll, ← hterse]
            constructor
            · intro heq
              -- neither part is longer, so the cut is in the same place
              have hlens := congrArg List.length heq
              rw [List.length_append, List.length_append] at hlens
              obtain ⟨hfirst, hothers⟩ := List.append_inj heq (by omega)
              refine ⟨hfirst, fun field' rest' hread' => ?_⟩
              rw [hread] at hread'
              obtain ⟨-, rfl⟩ := Prod.mk.inj (Option.some.inj hread')
              exact hterseAll.1 hothers
            · rintro ⟨hfirst, hothers⟩
              rw [hfirst, hterseAll.2 (hothers field rest hread)]

end FieldType

def Key.lead? : Key → Option Bytes
  | .string s => some (Bytes.ofText s)
  | .raw b => some b
  | _ => none

namespace Format

variable {f : Format} {key : Key} {b : Bytes}

/-- All numbers in a packed key have no shorter spelling. -/
def Terse (f : Format) (b : Bytes) : Prop :=
  FieldType.TerseAll f.fields b

private theorem unpackKey_error {fault : PackedFault}
    (h : FieldType.unpackAll f.fields b = .error fault) :
    f.unpackKey b = .error (.corruption (.key fault)) := by
  rw [unpackKey, unpack, h]
  rfl

theorem admits_ofParts {keys : List Key} (h : List.Forall₂ FieldType.Admits f.fields keys) :
    f.Admits (.ofParts keys) ∧ (Key.ofParts keys).parts = keys := by
  match keys, hfields : f.fields, h with
  | [], [], _ => exact absurd hfields f.nonempty
  | [key], [ty], h =>
    obtain ⟨hkey, -⟩ := List.forall₂_cons.1 h
    exact ⟨.alone hfields hkey, FieldType.parts_eq (FieldType.check_eq_ok_iff.2 hkey)⟩
  | _ :: _ :: _, _ :: _ :: _, h =>
    exact ⟨.tuple (by simp [isTuple, hfields]) (hfields ▸ h), rfl⟩

theorem leadField?_encode (h : f.check key = .ok ()) (hsize : key.Measured) :
    f.leadField? key.encode = key.lead? := by
  cases check_eq_ok_iff.1 h with
  | @alone ty _ hfields hkey =>
    have hlead : ∀ b : Bytes, b.length < 2 ^ 64 →
        (Varint.readSlice (Varint.encodeSlice b)).map (·.1) = some b := by
      intro b hb
      have hread := Varint.readSlice_encodeSlice b [] hb
      rw [List.append_nil] at hread
      rw [hread]
      rfl
    rw [leadField?, hfields]
    cases hkey with
    | string s => rw [Key.encode]; exact hlead _ hsize
    | raw b => rw [Key.encode]; exact hlead _ hsize
    | _ => rfl
  | @tuple keys hseveral hkeys =>
    rw [isTuple, decide_eq_true_iff] at hseveral
    rw [leadField?]
    generalize f.fields = tys at hseveral
    obtain _ | ⟨ty, _ | ⟨ty', tys⟩⟩ := tys
    · cases hseveral
    · exact absurd hseveral (Nat.lt_irrefl 1)
    · cases ty <;> rfl

/-- What a format packs it unpacks, and neither less nor more of it. -/
theorem unpackKey_packed {packed : Bytes} (h : f.packKey key = .ok packed)
    (hsize : packed.length < 2 ^ 64) :
    f.unpackKey packed = .ok key ∧
      (∀ front back, packed = front ++ back → back ≠ [] →
        ∃ kind, f.unpackKey front = .error (.corruption (.key (.truncated kind)))) ∧
      (∀ more, more ≠ [] →
        f.unpackKey (packed ++ more) = .error (.corruption (.key .trailingBytes))) := by
  obtain ⟨hcheck, rfl⟩ := packKey_eq_ok_iff.1 h
  obtain ⟨hlen, hparts, hencode, -⟩ := check_parts hcheck
  have hmeasured := Key.measured_of_mem (hencode ▸ hsize)
  refine ⟨unpackKey_encode hcheck hsize, ?_, ?_⟩
  · intro front back hcut hne
    obtain ⟨kind, hfault⟩ :=
      FieldType.unpackAll_cut hlen hparts hmeasured (hencode.trans hcut) hne
    exact ⟨kind, unpackKey_error hfault⟩
  · intro more hne
    have hfault := FieldType.unpackAll_extended hlen hparts hmeasured hne
    rw [hencode] at hfault
    exact unpackKey_error hfault

/-- A key that unpacks packs again, to bytes that compare as equal and are the shortest that unpack to
it. -/
theorem packKey_unpacked (h : f.unpackKey b = .ok key) :
    ∃ packed, f.packKey key = .ok packed ∧ (KeyOrder.typed f).compare packed b = .eq ∧
      packed.length ≤ b.length ∧ (packed = b ↔ f.Terse b) := by
  obtain ⟨keys, hkeys, rfl⟩ := unpackKey_eq_ok_iff.1 h
  obtain ⟨hadmits, hdecode, hmeasured, hlen, hterse⟩ := FieldType.unpackAll_sound hkeys
  obtain ⟨hkey, hpartsEq⟩ := admits_ofParts hadmits
  have hcheck := check_eq_ok_iff.2 hkey
  obtain ⟨hcount, hchecks, hencode, -⟩ := check_parts hcheck
  rw [hpartsEq] at hcount hchecks hencode
  refine ⟨_, packKey_eq_ok_iff.2 ⟨hcheck, hencode⟩, ?_, hlen, hterse⟩
  rw [KeyOrder.compare_typed, hdecode,
    (FieldType.decodeAll_encodeAll hcount hchecks hmeasured).1]
  exact ReflCmp.compare_self

theorem compare_unpacked {c : Bytes} {other : Key} (hb : f.unpackKey b = .ok key)
    (hc : f.unpackKey c = .ok other) : (KeyOrder.typed f).compare b c = .eq ↔ key = other := by
  obtain ⟨keys, hkeys, rfl⟩ := unpackKey_eq_ok_iff.1 hb
  obtain ⟨others, hothers, rfl⟩ := unpackKey_eq_ok_iff.1 hc
  obtain ⟨hadmits, hdecode, -⟩ := FieldType.unpackAll_sound hkeys
  obtain ⟨hadmits', hdecode', -⟩ := FieldType.unpackAll_sound hothers
  obtain ⟨hkey, hparts⟩ := admits_ofParts hadmits
  obtain ⟨hother, hparts'⟩ := admits_ofParts hadmits'
  rw [KeyOrder.compare_typed, LawfulEqCmp.compare_eq_iff_eq, hdecode,
    hdecode']
  constructor
  · intro hfields
    obtain ⟨hlen, hchecks, -⟩ := check_parts (check_eq_ok_iff.2 hkey)
    obtain ⟨hlen', hchecks', -⟩ := check_parts (check_eq_ok_iff.2 hother)
    rw [hparts] at hlen hchecks
    rw [hparts'] at hlen' hchecks'
    rw [FieldType.eq_of_map_field hlen hlen' hchecks hchecks' hfields]
  · intro hsame
    rw [← hparts, hsame, hparts']

/-- A format packs just the keys of its shape. What it packs it unpacks to the same key, while every
leading part of it is truncated and every extension of it has trailing bytes. And bytes that unpack
differ from the packed form of their key only where a number in them is not as short as it could be. -/
theorem pack_unpack_inverse (f : Format) (key : Key) :
    ((∃ packed, f.packKey key = .ok packed) ↔ f.Admits key) ∧
    (∀ packed, f.packKey key = .ok packed → packed.length < 2 ^ 64 →
      f.unpackKey packed = .ok key ∧
      (∀ front back, packed = front ++ back → back ≠ [] →
        ∃ kind, f.unpackKey front = .error (.corruption (.key (.truncated kind)))) ∧
      (∀ more, more ≠ [] →
        f.unpackKey (packed ++ more) = .error (.corruption (.key .trailingBytes))) ∧
      f.leadField? packed = key.lead?) ∧
    (∀ b, f.unpackKey b = .ok key → ∃ packed, f.packKey key = .ok packed ∧
      (KeyOrder.typed f).compare packed b = .eq ∧ packed.length ≤ b.length ∧
      (packed = b ↔ f.Terse b)) := by
  refine ⟨?_, ?_, fun b h => packKey_unpacked h⟩
  · rw [← check_eq_ok_iff]
    constructor
    · rintro ⟨packed, hpacked⟩
      exact (packKey_eq_ok_iff.1 hpacked).1
    · exact fun hcheck => ⟨_, packKey_eq_ok_iff.2 ⟨hcheck, rfl⟩⟩
  · intro packed hpacked hsize
    obtain ⟨hback, hcut, hextended⟩ := unpackKey_packed hpacked hsize
    obtain ⟨hcheck, rfl⟩ := packKey_eq_ok_iff.1 hpacked
    exact ⟨hback, hcut, hextended, leadField?_encode hcheck (Key.measured_of_length hsize)⟩

/-- A record number and a string, and bytes that unpack to them although both numbers are longer than
they need be. -/
theorem pack_unpack_inverse_padded :
    let f : Format := ⟨[.recno, .string], by decide⟩
    let key : Key := .tuple [.recno 300, .string "né"]
    let packed : Bytes := [0xac, 0x02, 0x03, 0x6e, 0xc3, 0xa9]
    let padded : Bytes := [0xac, 0x82, 0x00, 0x83, 0x00, 0x6e, 0xc3, 0xa9]
    f.packKey key = .ok packed ∧ f.unpackKey packed = .ok key ∧
      (∃ kind, f.unpackKey (packed.take 4) = .error (.corruption (.key (.truncated kind)))) ∧
      f.unpackKey (packed ++ [0x00]) = .error (.corruption (.key .trailingBytes)) ∧
      f.leadField? packed = none ∧ f.unpackKey padded = .ok key ∧
      (KeyOrder.typed f).compare packed padded = .eq ∧ ¬ f.Terse padded := by
  intro f key packed padded
  have hpacked : f.packKey key = .ok packed := by decide +kernel
  have hpadded : f.unpackKey padded = .ok key := by decide +kernel
  obtain ⟨-, hforth, hback⟩ := pack_unpack_inverse f key
  obtain ⟨hunpack, hcut, hextended, hlead⟩ := hforth packed hpacked (by decide)
  obtain ⟨packed', hpacked', hcompare, -, hterse⟩ := hback padded hpadded
  obtain rfl : packed = packed' := Except.ok.inj (hpacked.symm.trans hpacked')
  exact ⟨hpacked, hunpack, hcut _ (packed.drop 4) rfl (by decide), hextended [0x00] (by decide), hlead,
    hpadded, hcompare, fun h => absurd (hterse.2 h) (by decide)⟩

end Format

end Keyspan
