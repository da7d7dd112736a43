import Mathlib.Data.List.Forall2
import Keyspan.Key.Format

set_option autoImplicit false
set_option relaxedAutoImplicit false

namespace Keyspan

/-- The key is a value of the field type. No tuple is. -/
inductive FieldType.Admits : FieldType → Key → Prop
  | string (text : String) : Admits string (.string text)
  | int (value : Int64) : Admits int (.int value)
  | recno (number : UInt64) : Admits recno (.recno number)
  | fixed {width : Nat} (pos : 0 < width) {b : Bytes} (length : b.length = width) :
    Admits (fixed width pos) (.fixed b)
  | raw (b : Bytes) : Admits raw (.raw b)

/-- A format of one field takes the values of that field alone, and one of several fields takes tuples
with a value for each. -/
inductive Format.Admits (f : Format) : Key → Prop
  | alone {ty : FieldType} {key : Key} (fields : f.fields = [ty]) (h : ty.Admits key) : Admits f key
  | tuple {keys : List Key} (several : f.isTuple = true)
    (h : List.Forall₂ FieldType.Admits f.fields keys) : Admits f (.tuple keys)

namespace FieldType

theorem check_eq_ok_iff {ty : FieldType} {key : Key} : ty.check key = .ok () ↔ ty.Admits key := by
  constructor
  · intro h
    cases ty with
    | fixed width pos =>
      cases key with
      | fixed b =>
        rw [check] at h
        split at h
        next hlen => exact .fixed pos hlen
        next => cases h
      | _ => cases h
    | string =>
      cases key with
      | string s => exact .string s
      | _ => cases h
    | int =>
      cases key with
      | int i => exact .int i
      | _ => cases h
    | recno =>
      cases key with
      | recno n => exact .recno n
      | _ => cases h
    | raw =>
      cases key with
      | raw b => exact .raw b
      | _ => cases h
  · intro h
    cases h with
    | fixed pos hlen => exact if_pos hlen
    | _ => rfl

theorem checkAll_cons {ty : FieldType} {tys : List FieldType} {key : Key} {keys : List Key} :
    checkAll (ty :: tys) (key :: keys) = .ok () ↔
      ty.check key = .ok () ∧ checkAll tys keys = .ok () := by
  rw [checkAll]
  cases ty.check key with
  | error e => exact ⟨nofun, nofun⟩
  | ok u => exact ⟨fun h => ⟨rfl, h⟩, fun h => h.2⟩

theorem checkAll_eq_ok_iff {tys : List FieldType} {keys : List Key}
    (hlen : keys.length = tys.length) :
    checkAll tys keys = .ok () ↔ List.Forall₂ Admits tys keys := by
  induction tys generalizing keys with
  | nil =>
    obtain rfl := List.length_eq_zero_iff.1 hlen
    exact ⟨fun _ => .nil, fun _ => rfl⟩
  | cons ty tys ih =>
    obtain ⟨key, keys, rfl⟩ := List.exists_cons_of_length_eq_add_one hlen
    rw [checkAll_cons, List.forall₂_cons, check_eq_ok_iff, ih (Nat.succ.inj hlen)]

end FieldType

namespace Format

variable {f : Format} {key : Key}

/-- The check passes just the keys of the format's shape. -/
theorem check_eq_ok_iff : f.check key = .ok () ↔ f.Admits key := by
  obtain ⟨fields, hne⟩ := f
  match fields, hne with
  | [], hne => exact absurd rfl hne
  | [ty], hne =>
    refine FieldType.check_eq_ok_iff.trans ⟨.alone rfl, fun h => ?_⟩
    cases h with
    | alone hfields h =>
      cases hfields
      exact h
    | tuple hseveral h => cases hseveral
  | ty :: ty' :: tys, hne =>
    constructor
    · intro h
      cases key with
      | tuple keys =>
        simp only [check] at h
        split at h
        next hlen => exact .tuple (by simp [isTuple]) ((FieldType.checkAll_eq_ok_iff hlen).1 h)
        next => cases h
      | _ => cases h
    · intro h
      cases h with
      | alone hfields h => cases hfields
      | tuple hseveral h =>
        have hlen := h.length_eq.symm
        simp only [check, if_pos hlen]
        exact (FieldType.checkAll_eq_ok_iff hlen).2 h

end Format

end Keyspan
