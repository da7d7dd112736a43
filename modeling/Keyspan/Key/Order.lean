import Keyspan.Key.Packed

/-!
Orders on packed keys.

A format orders packed keys by their decoded fields, from the left. Bytes that cannot be decoded any
further end the key, so a truncated key comes before every key that continues it and whatever follows
the last field is ignored. That makes it a total preorder on all byte strings, whether they unpack or not,
as every order of a store has to be.
-/

set_option autoImplicit false
set_option relaxedAutoImplicit false

namespace Keyspan

namespace Field

/-- Byte strings compare by their bytes, numbers by their value. -/
def compare : Field → Field → Ordering
  | bytes a, bytes b => Ord.compare a b
  | int a, int b => Ord.compare a b
  | recno a, recno b => Ord.compare a b
  | bytes _, _ => .lt
  | _, bytes _ => .gt
  | int _, recno _ => .lt
  | recno _, int _ => .gt

end Field

namespace FieldType

/-- Compares two packed keys field by field, decoding both in step. -/
def compareAll : List FieldType → Bytes → Bytes → Ordering
  | [], _, _ => .eq
  | ty :: tys, a, b =>
    match ty.read a, ty.read b with
    | none, none => .eq
    | none, some _ => .lt
    | some _, none => .gt
    | some (x, restA), some (y, restB) =>
      match x.compare y with
      | .eq => compareAll tys restA restB
      | unequal => unequal

end FieldType

open Std

namespace Field

instance : OrientedCmp Field.compare where
  eq_swap {a b} := by
    cases a <;> cases b <;> first | exact OrientedOrd.eq_swap | rfl

instance : TransCmp Field.compare where
  isLE_trans {a b c} hab hbc := by
    cases a <;> cases b <;> cases c <;>
      first
        | exact TransOrd.isLE_trans hab hbc
        | rfl
        | exact absurd hab Bool.false_ne_true
        | exact absurd hbc Bool.false_ne_true

instance : LawfulEqCmp Field.compare where
  eq_of_compare {a b} h := by
    cases a <;> cases b <;>
      first
        | exact congrArg _ (LawfulEqOrd.eq_of_compare h)
        | cases h

end Field

namespace FieldType

/-- The fields that some bytes decode to, up to the first that does not read. -/
def decodeAll : List FieldType → Bytes → List Field
  | [], _ => []
  | ty :: tys, b =>
    match ty.read b with
    | none => []
    | some (field, rest) => field :: decodeAll tys rest

theorem compareAll_eq (tys : List FieldType) (a b : Bytes) :
    compareAll tys a b = List.compareLex Field.compare (decodeAll tys a) (decodeAll tys b) := by
  induction tys generalizing a b with
  | nil => rfl
  | cons ty tys ih =>
    simp only [compareAll, decodeAll]
    cases ty.read a with
    | none => cases ty.read b <;> rfl
    | some p =>
      cases ty.read b with
      | none => rfl
      | some q =>
        simp only [ih, List.compareLex_cons_cons]
        cases p.1.compare q.1 <;> rfl

instance (tys : List FieldType) : TransCmp (compareAll tys) where
  eq_swap {a b} := by
    rw [compareAll_eq, compareAll_eq]
    exact OrientedCmp.eq_swap
  isLE_trans {a b c} hab hbc := by
    rw [compareAll_eq] at hab hbc ⊢
    exact TransCmp.isLE_trans hab hbc

end FieldType

/-- How a store orders its packed keys: a total preorder on byte strings. -/
structure KeyOrder where
  name : String
  compare : Bytes → Bytes → Ordering
  [total : TransCmp compare]

namespace KeyOrder

instance (o : KeyOrder) : TransCmp o.compare :=
  o.total

def bytewise : KeyOrder where
  name := "boundkv.BytewiseComparator"
  compare a b := Ord.compare a b

def typed (f : Format) : KeyOrder where
  name :=
    match f.fields with
    | [.string] => "boundkv.StringComparator"
    | [.int] => "boundkv.IntComparator"
    | [.recno] => "boundkv.RecnoComparator"
    | [.fixed _ _] => "boundkv.FixedComparator"
    | [.raw] => "boundkv.RawComparator"
    | _ => "boundkv.TupleComparator"
  compare := FieldType.compareAll f.fields

theorem compare_typed (f : Format) (a b : Bytes) : (typed f).compare a b =
    List.compareLex Field.compare (FieldType.decodeAll f.fields a) (FieldType.decodeAll f.fields b) :=
  FieldType.compareAll_eq f.fields a b

end KeyOrder

end Keyspan
