import Mathlib.Data.List.Lex
import Keyspan.Proofs.Key.Precedes
import Keyspan.Proofs.Key.RoundTrip

/-!
The order of byte strings that need not be packed keys.

What a format reads of some bytes is described by a relation: one field after the other, each from a part
that spells it, up to the first that no part at the front spells. By the lists of fields read, and by
nothing else, byte strings compare, so the order is a total preorder on all of them, and a key that breaks
off comes before every key that goes on from there.
-/

set_option autoImplicit false
set_option relaxedAutoImplicit false

namespace Keyspan

open Std

/-- The first field comes before the second: byte strings in dictionary order, integers by their signed
and record numbers by their unsigned value. -/
inductive Field.Precedes : Field → Field → Prop
  | bytes {x y : Bytes} : x < y → Precedes (.bytes x) (.bytes y)
  | int {i j : Int64} : i.toInt < j.toInt → Precedes (.int i) (.int j)
  | recno {m n : UInt64} : m.toNat < n.toNat → Precedes (.recno m) (.recno n)

namespace FieldType

/-- The fields that some bytes decode to, in turn, up to the first that is not spelled at the front of
what is left. Bytes behind the last field do not matter. -/
inductive Decodes : List FieldType → Bytes → List Field → Prop
  | done (rest : Bytes) : Decodes [] rest []
  | stuck {ty : FieldType} {tys : List FieldType} {src : Bytes}
      (unread : ∀ part field rest, ty.Spells part field → src ≠ part ++ rest) :
      Decodes (ty :: tys) src []
  | field {ty : FieldType} {tys : List FieldType} {part rest : Bytes} {x : Field}
      {fields : List Field} (spells : ty.Spells part x) (others : Decodes tys rest fields) :
      Decodes (ty :: tys) (part ++ rest) (x :: fields)

variable {ty : FieldType} {tys : List FieldType} {src : Bytes} {fields : List Field}

private theorem decodes_decodeAll (tys : List FieldType) (src : Bytes) :
    Decodes tys src (decodeAll tys src) := by
  induction tys generalizing src with
  | nil => exact .done src
  | cons ty tys ih =>
    rw [decodeAll]
    cases hread : ty.read src with
    | none =>
      refine .stuck fun part field rest hspells heq => ?_
      have hsome := read_eq_some_iff.2 ⟨part, hspells, heq⟩
      cases hread.symm.trans hsome
    | some p =>
      obtain ⟨x, rest⟩ := p
      obtain ⟨part, hspells, rfl⟩ := read_eq_some_iff.1 hread
      exact .field hspells (ih rest)

theorem decodes_iff : Decodes tys src fields ↔ fields = decodeAll tys src := by
  constructor
  · intro h
    induction h with
    | done => rfl
    | @stuck ty tys src hunread =>
      rw [decodeAll]
      cases hread : ty.read src with
      | none => rfl
      | some p =>
        obtain ⟨part, hspells, heq⟩ := read_eq_some_iff.1 hread
        exact absurd heq (hunread part p.1 p.2 hspells)
    | @field ty tys part rest x fields hspells _ ih =>
      have hread : ty.read (part ++ rest) = some (x, rest) := read_eq_some_iff.2 ⟨part, hspells, rfl⟩
      rw [decodeAll, hread, ih]
  · rintro rfl
    exact decodes_decodeAll tys src

theorem Spells.compare_iff {part part' : Bytes} {x y : Field} (hx : ty.Spells part x)
    (hy : ty.Spells part' y) : x.compare y = .lt ↔ x.Precedes y := by
  have hbytes : ∀ a b : Bytes,
      Field.compare (.bytes a) (.bytes b) = .lt ↔ Field.Precedes (.bytes a) (.bytes b) := by
    intro a b
    refine Bytes.compare_eq_lt_iff.trans ⟨.bytes, fun h => ?_⟩
    cases h with
    | bytes h => exact h
  cases hx with
  | string =>
    cases hy with
    | string => exact hbytes _ _
  | raw =>
    cases hy with
    | raw => exact hbytes _ _
  | fixed =>
    cases hy with
    | fixed => exact hbytes _ _
  | int =>
    cases hy with
    | int =>
      refine Std.compare_eq_lt.trans (Int64.lt_iff_toInt_lt.trans ⟨.int, fun h => ?_⟩)
      cases h with
      | int h => exact h
  | recno =>
    cases hy with
    | recno =>
      refine Std.compare_eq_lt.trans (UInt64.lt_iff_toNat_lt.trans ⟨.recno, fun h => ?_⟩)
      cases h with
      | recno h => exact h

theorem Decodes.compareLex_iff {a b : Bytes} {as bs : List Field} (ha : Decodes tys a as)
    (hb : Decodes tys b bs) :
    List.compareLex Field.compare as bs = .lt ↔ List.Lex Field.Precedes as bs := by
  induction ha generalizing b bs with
  | done =>
    cases hb with
    | done => simp [List.compareLex]
  | stuck =>
    cases hb with
    | stuck => simp [List.compareLex]
    | field => simp [List.compareLex]
  | field hx _ ih =>
    cases hb with
    | stuck => simp [List.compareLex]
    | field hy hbs =>
      rw [List.compareLex_cons_cons, Ordering.then_eq_lt, hx.compare_iff hy,
        LawfulEqCmp.compare_eq_iff_eq, ih hbs, List.cons_lex_cons_iff]

end FieldType

namespace Format

open FieldType (Decodes decodeAll decodes_iff)

/-- Some bytes decode to one list of fields under a format, and by these lists any two byte strings
compare: the lesser in lexicographic order is below, and those with equal lists are equal. So the order
holds both ways, is reflexive and transitive, and what breaks off is below whatever goes on from it. -/
theorem compare_decoded (f : Format) :
    (∀ src fields, Decodes f.fields src fields ↔ fields = decodeAll f.fields src) ∧
    (∀ a b as bs, Decodes f.fields a as → Decodes f.fields b bs →
      (KeyOrder.typed f).compare a b = List.compareLex Field.compare as bs ∧
      ((KeyOrder.typed f).compare a b = .lt ↔ List.Lex Field.Precedes as bs) ∧
      ((KeyOrder.typed f).compare a b = .gt ↔ List.Lex Field.Precedes bs as) ∧
      ((KeyOrder.typed f).compare a b = .eq ↔ as = bs) ∧
      (∀ x more, bs = as ++ x :: more → (KeyOrder.typed f).compare a b = .lt)) ∧
    (∀ a b, (KeyOrder.typed f).compare b a = ((KeyOrder.typed f).compare a b).swap) ∧
    (∀ a, (KeyOrder.typed f).compare a a = .eq) ∧
    ∀ a b c, ((KeyOrder.typed f).compare a b).isLE = true →
      ((KeyOrder.typed f).compare b c).isLE = true →
      ((KeyOrder.typed f).compare a c).isLE = true := by
  refine ⟨fun _ _ => decodes_iff, fun a b as bs ha hb => ?_, fun _ _ => OrientedCmp.eq_swap,
    fun _ => ReflCmp.compare_self, fun _ _ _ hab hbc => TransCmp.isLE_trans hab hbc⟩
  have hcompare : (KeyOrder.typed f).compare a b = List.compareLex Field.compare as bs := by
    rw [decodes_iff.1 ha, decodes_iff.1 hb]
    exact KeyOrder.compare_typed f a b
  have hlt : (KeyOrder.typed f).compare a b = .lt ↔ List.Lex Field.Precedes as bs := by
    rw [hcompare]
    exact ha.compareLex_iff hb
  refine ⟨hcompare, hlt, ?_, ?_, ?_⟩
  · rw [hcompare, OrientedCmp.gt_iff_lt]
    exact hb.compareLex_iff ha
  · rw [hcompare]
    exact LawfulEqCmp.compare_eq_iff_eq
  · rintro x more rfl
    have hlex : List.Lex Field.Precedes (as ++ []) (as ++ x :: more) := List.Lex.nil.append_left _ as
    rw [List.append_nil] at hlex
    exact hlt.2 hlex

/-- A key that breaks off in an overlong number, one that goes on from there, and this one again with a
byte too many. -/
theorem compare_decoded_broken :
    let f : Format := ⟨[.int, .string], by decide⟩
    let broken : Bytes := Key.encode (.int 2) ++ [255, 255, 255, 255, 255, 255, 255, 255, 255, 255, 0]
    let whole : Bytes := Key.encode (.tuple [.int 2, .string "b"])
    let extended : Bytes := whole ++ [7]
    Decodes f.fields broken [.int 2] ∧ Decodes f.fields whole [.int 2, .bytes [98]] ∧
      Decodes f.fields extended [.int 2, .bytes [98]] ∧
      (KeyOrder.typed f).compare broken whole = .lt ∧
      (KeyOrder.typed f).compare whole extended = .eq ∧
      ((KeyOrder.typed f).compare broken extended).isLE = true := by
  intro f broken whole extended
  obtain ⟨hdecodes, hcompare, -, -, htrans⟩ := compare_decoded f
  have hbroken : Decodes f.fields broken [.int 2] := (hdecodes _ _).2 (by decide +kernel)
  have hwhole : Decodes f.fields whole [.int 2, .bytes [98]] := (hdecodes _ _).2 (by decide +kernel)
  have hextended : Decodes f.fields extended [.int 2, .bytes [98]] :=
    (hdecodes _ _).2 (by decide +kernel)
  obtain ⟨-, -, -, -, hbelow⟩ := hcompare _ _ _ _ hbroken hwhole
  obtain ⟨-, -, -, hequal, -⟩ := hcompare _ _ _ _ hwhole hextended
  have hlt := hbelow (.bytes [98]) [] rfl
  have heq := hequal.2 rfl
  refine ⟨hbroken, hwhole, hextended, hlt, heq, htrans _ whole _ ?_ ?_⟩
  · rw [hlt]
    rfl
  · rw [heq]
    rfl

end Format

end Keyspan
