import Keyspan.Proofs.Key.Typed

set_option autoImplicit false
set_option relaxedAutoImplicit false

namespace Keyspan

open Std

/-- The first key comes before the second: integers by their signed value, record numbers by their
unsigned value, byte strings in dictionary order, tuples by the first field in which they differ. -/
inductive Key.Precedes : Key → Key → Prop
  | string {s t : String} : Bytes.ofText s < Bytes.ofText t → Precedes (.string s) (.string t)
  | int {i j : Int64} : i.toInt < j.toInt → Precedes (.int i) (.int j)
  | recno {m n : UInt64} : m.toNat < n.toNat → Precedes (.recno m) (.recno n)
  | fixed {x y : Bytes} : x < y → Precedes (.fixed x) (.fixed y)
  | raw {x y : Bytes} : x < y → Precedes (.raw x) (.raw y)
  | tuple {front backA backB : List Key} {x y : Key} : Precedes x y →
      Precedes (.tuple (front ++ x :: backA)) (.tuple (front ++ y :: backB))

theorem Bytes.compare_eq_lt_iff {x y : Bytes} : Ord.compare x y = .lt ↔ x < y := by
  show List.compareLex Ord.compare x y = .lt ↔ x < y
  induction x generalizing y with
  | nil => cases y <;> simp [List.compareLex]
  | cons a x ih =>
    cases y with
    | nil => simp [List.compareLex]
    | cons b y =>
      rw [List.compareLex_cons_cons, Ordering.then_eq_lt, Std.compare_eq_lt,
        LawfulEqOrd.compare_eq_iff_eq, List.cons_lt_cons_iff, ih]

namespace FieldType

variable {ty : FieldType} {a b : Key}

private theorem kind_eq (ha : ty.check a = .ok ()) : a.kind = ty.kind := by
  cases ty <;> cases a <;> first | rfl | cases ha

theorem compare_field_iff (ha : ty.check a = .ok ()) (hb : ty.check b = .ok ()) :
    a.field.compare b.field = .lt ↔ a.Precedes b := by
  have hkind : a.kind = b.kind := (kind_eq ha).trans (kind_eq hb).symm
  cases a with
  | string s =>
    cases b with
    | string t =>
      refine Bytes.compare_eq_lt_iff.trans ⟨.string, fun h => ?_⟩
      cases h with
      | string h => exact h
    | _ => cases hkind
  | int i =>
    cases b with
    | int j =>
      refine Std.compare_eq_lt.trans (Int64.lt_iff_toInt_lt.trans ⟨.int, fun h => ?_⟩)
      cases h with
      | int h => exact h
    | _ => cases hkind
  | recno m =>
    cases b with
    | recno n =>
      refine Std.compare_eq_lt.trans (UInt64.lt_iff_toNat_lt.trans ⟨.recno, fun h => ?_⟩)
      cases h with
      | recno h => exact h
    | _ => cases hkind
  | fixed x =>
    cases b with
    | fixed y =>
      refine Bytes.compare_eq_lt_iff.trans ⟨.fixed, fun h => ?_⟩
      cases h with
      | fixed h => exact h
    | _ => cases hkind
  | raw x =>
    cases b with
    | raw y =>
      refine Bytes.compare_eq_lt_iff.trans ⟨.raw, fun h => ?_⟩
      cases h with
      | raw h => exact h
    | _ => cases hkind
  | tuple keys => cases ty <;> cases ha

theorem compareLex_field_iff {tys : List FieldType} {as bs : List Key}
    (hlena : as.length = tys.length) (hlenb : bs.length = tys.length)
    (has : checkAll tys as = .ok ()) (hbs : checkAll tys bs = .ok ()) :
    List.compareLex Field.compare (as.map Key.field) (bs.map Key.field) = .lt ↔
      ∃ front x y backA backB, as = front ++ x :: backA ∧ bs = front ++ y :: backB ∧
        x.Precedes y := by
  induction tys generalizing as bs with
  | nil =>
    obtain rfl := List.length_eq_zero_iff.1 hlena
    obtain rfl := List.length_eq_zero_iff.1 hlenb
    simp [List.compareLex]
  | cons ty tys ih =>
    obtain ⟨a, as, rfl⟩ := List.exists_cons_of_length_eq_add_one hlena
    obtain ⟨b, bs, rfl⟩ := List.exists_cons_of_length_eq_add_one hlenb
    obtain ⟨ha, has⟩ := checkAll_cons.1 has
    obtain ⟨hb, hbs⟩ := checkAll_cons.1 hbs
    have hrest := ih (Nat.succ.inj hlena) (Nat.succ.inj hlenb) has hbs
    rw [List.map_cons, List.map_cons, List.compareLex_cons_cons, Ordering.then_eq_lt,
      compare_field_iff ha hb, hrest]
    constructor
    · rintro (hlt | ⟨heq, front, x, y, backA, backB, rfl, rfl, hlt⟩)
      · exact ⟨[], a, b, as, bs, rfl, rfl, hlt⟩
      · have hsame : a = b := by
          have htoKey := toKey_field ha
          rw [LawfulEqCmp.eq_of_compare heq, toKey_field hb] at htoKey
          exact (Except.ok.inj htoKey).symm
        exact ⟨a :: front, x, y, backA, backB, rfl, by rw [hsame]; rfl, hlt⟩
    · rintro ⟨front, x, y, backA, backB, hfront, hfront', hlt⟩
      cases front with
      | nil =>
        obtain ⟨rfl, rfl⟩ := List.cons.inj hfront
        obtain ⟨rfl, rfl⟩ := List.cons.inj hfront'
        exact Or.inl hlt
      | cons c front =>
        obtain ⟨rfl, rfl⟩ := List.cons.inj hfront
        obtain ⟨rfl, rfl⟩ := List.cons.inj hfront'
        exact Or.inr ⟨ReflCmp.compare_self, front, x, y, backA, backB, rfl, rfl, hlt⟩

end FieldType

namespace Format

variable {f : Format} {a b : Key}

theorem compare_iff_precedes (ha : f.check a = .ok ()) (hb : f.check b = .ok ()) :
    a.compare b = .lt ↔ a.Precedes b := by
  obtain ⟨hlena, hpartsa, -, -⟩ := check_parts ha
  obtain ⟨hlenb, hpartsb, -, -⟩ := check_parts hb
  obtain ⟨fields, hne⟩ := f
  match fields, hne with
  | [], hne => exact absurd rfl hne
  | [ty], _ =>
    have ha : ty.check a = .ok () := ha
    have hb : ty.check b = .ok () := hb
    rw [Key.compare, FieldType.parts_eq ha, FieldType.parts_eq hb]
    refine Iff.trans ?_ (FieldType.compare_field_iff ha hb)
    simp only [List.map_cons, List.map_nil, List.compareLex_cons_cons, List.compareLex_nil_nil,
      Ordering.then_eq]
  | ty :: ty' :: tys, _ =>
    cases a with
    | tuple as =>
      cases b with
      | tuple bs =>
        refine (FieldType.compareLex_field_iff hlena hlenb hpartsa hpartsb).trans ⟨?_, fun h => ?_⟩
        · rintro ⟨front, x, y, backA, backB, rfl, rfl, hlt⟩
          exact .tuple hlt
        · cases h with
          | tuple hlt => exact ⟨_, _, _, _, _, rfl, rfl, hlt⟩
      | _ => cases hb
    | _ => cases ha

/-- Packed keys compare in the typed order of the keys that they pack: one is below, equal to or above
the other just as its key comes before, is or comes after the other key, and only equal keys pack to
the same bytes. -/
theorem compare_packed_iff_precedes (f : Format) (a b : Key) (ha : f.check a = .ok ())
    (hb : f.check b = .ok ()) (rooma : a.encode.length < 2 ^ 64)
    (roomb : b.encode.length < 2 ^ 64) :
    ∃ p q, f.pack a = .ok p ∧ f.pack b = .ok q ∧
      ((KeyOrder.typed f).compare p q = .lt ↔ a.Precedes b) ∧
      ((KeyOrder.typed f).compare p q = .gt ↔ b.Precedes a) ∧
      ((KeyOrder.typed f).compare p q = .eq ↔ a = b) ∧ (p = q ↔ a = b) := by
  have hpack : ∀ key : Key, f.check key = .ok () → f.pack key = .ok key.encode := by
    intro key hkey
    rw [pack, hkey]
    rfl
  refine ⟨a.encode, b.encode, hpack a ha, hpack b hb, ?_, ?_, ?_, ?_⟩
  · rw [compare_encode ha hb rooma roomb]
    exact compare_iff_precedes ha hb
  · rw [compare_encode ha hb rooma roomb, OrientedCmp.gt_iff_lt]
    exact compare_iff_precedes hb ha
  · rw [compare_encode ha hb rooma roomb]
    exact ⟨eq_of_compare ha hb, fun h => h ▸ ReflCmp.compare_self⟩
  · constructor
    · intro h
      have hunpack := unpackKey_encode ha rooma
      rw [h, unpackKey_encode hb roomb] at hunpack
      exact (Except.ok.inj hunpack).symm
    · exact fun h => h ▸ rfl

/-- Tuples that agree in a string and differ in the sign of an integer. -/
theorem compare_packed_iff_precedes_signs :
    let f : Format := ⟨[.string, .int, .recno], by decide⟩
    let a : Key := .tuple [.string "né", .int (-1), .recno 300]
    let b : Key := .tuple [.string "né", .int 0, .recno 2]
    ∃ p q, f.pack a = .ok p ∧ f.pack b = .ok q ∧ (KeyOrder.typed f).compare p q = .lt := by
  intro f a b
  obtain ⟨p, q, hp, hq, hlt, -⟩ :=
    compare_packed_iff_precedes f a b rfl rfl (by decide +kernel) (by decide +kernel)
  have hprecedes : a.Precedes b :=
    @Key.Precedes.tuple [.string "né"] [.recno 300] [.recno 2] _ _ (.int (by decide))
  exact ⟨p, q, hp, hq, hlt.2 hprecedes⟩

end Format

end Keyspan
