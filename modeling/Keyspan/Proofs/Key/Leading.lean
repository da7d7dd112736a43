import Keyspan.Cursor.Search
import Keyspan.Proofs.Key.Precedes
import Keyspan.Proofs.Key.RoundTrip

set_option autoImplicit false
set_option relaxedAutoImplicit false

namespace Keyspan

theorem Bytes.isPrefix_of_lt {lead x y : Bytes} (hx : ¬ x < lead) (hxy : x < y) (hy : lead <+: y) :
    lead <+: x := by
  induction lead generalizing x y with
  | nil => exact List.nil_prefix
  | cons a lead ih =>
    obtain ⟨rest, rfl⟩ := hy
    cases x with
    | nil => exact absurd (List.nil_lt_cons a lead) hx
    | cons b x =>
      rw [List.cons_append] at hxy
      rcases List.cons_lt_cons_iff.1 hxy with hlt | ⟨rfl, hlt⟩
      · exact absurd (List.cons_lt_cons_iff.2 (Or.inl hlt)) hx
      · rw [List.cons_prefix_cons]
        refine ⟨rfl, ih (fun h => hx ?_) hlt ⟨rest, rfl⟩⟩
        exact List.cons_lt_cons_iff.2 (Or.inr ⟨rfl, h⟩)

namespace Format

/-- The format has one field, and that is a string or raw bytes. -/
def IsSlice (f : Format) : Prop :=
  f.fields = [.string] ∨ f.fields = [.raw]

instance (f : Format) : Decidable f.IsSlice :=
  inferInstanceAs (Decidable (_ ∨ _))

/-- Whether the key that is packed in some bytes starts with `lead`. -/
def startsWith (f : Format) (lead packed : Bytes) : Bool :=
  match f.unpackKey packed with
  | .ok key => key.lead?.any fun field => lead.isPrefixOf field
  | .error _ => false

variable {f : Format} {a b x y lead : Bytes} {key : Key}

section Slice

variable (slice : f.IsSlice)
include slice

private theorem decodeAll_slice (b : Bytes) :
    FieldType.decodeAll f.fields b = (f.leadField? b).toList.map .bytes := by
  have hnil : Varint.readSlice [] = none := rfl
  rw [leadField?]
  rcases slice with hfields | hfields <;> rw [hfields] <;> cases b with
  | nil => rfl
  | cons c b =>
    simp only [FieldType.decodeAll, FieldType.read_of_ne_nil (List.cons_ne_nil c b)]
    cases Varint.readSlice (c :: b) <;> rfl

theorem compare_of_leadField? (ha : f.leadField? a = some x) (hb : f.leadField? b = some y) :
    (KeyOrder.typed f).compare a b = Ord.compare x y := by
  rw [KeyOrder.compare_typed, decodeAll_slice slice, decodeAll_slice slice,
    ha, hb]
  simp only [Option.toList_some, List.map_cons, List.map_nil, List.compareLex_cons_cons,
    List.compareLex_nil_nil]
  exact Ordering.then_eq

theorem leadField?_of_unpackKey (h : f.unpackKey b = .ok key) :
    ∃ lead, key.lead? = some lead ∧ f.leadField? b = some lead := by
  obtain ⟨keys, hkeys, rfl⟩ := unpackKey_eq_ok_iff.1 h
  obtain ⟨hadmits, hdecode, -⟩ := FieldType.unpackAll_sound hkeys
  rw [decodeAll_slice slice] at hdecode
  have hread : ∀ {lead}, (f.leadField? b).toList.map Field.bytes = [.bytes lead] →
      f.leadField? b = some lead := by
    intro lead h
    cases hlead : f.leadField? b with
    | none =>
      rw [hlead] at h
      cases h
    | some found =>
      rw [hlead] at h
      obtain rfl := Field.bytes.inj (List.cons.inj h).1
      rfl
  rcases slice with hfields | hfields <;> rw [hfields] at hadmits <;>
    obtain ⟨key, _, hkey, hnone, rfl⟩ := List.forall₂_cons_left_iff.1 hadmits <;>
    obtain rfl := List.forall₂_nil_left_iff.1 hnone
  · cases hkey with
    | string s => exact ⟨Bytes.ofText s, rfl, hread hdecode⟩
  · cases hkey with
    | raw lead => exact ⟨lead, rfl, hread hdecode⟩

theorem hasLead_eq_startsWith (h : f.unpackKey b = .ok key) (lead : Bytes) :
    Scan.hasLead f (some lead) b = f.startsWith lead b := by
  obtain ⟨field, hkey, hb⟩ := leadField?_of_unpackKey slice h
  rw [Scan.hasLead, startsWith, h, hb]
  simp only [hkey, Option.any_some]

theorem leadField?_packed (h : f.packKey key = .ok a) (hsize : a.length < 2 ^ 64) :
    ∃ lead, key.lead? = some lead ∧ f.leadField? a = some lead :=
  leadField?_of_unpackKey slice (unpackKey_packed h hsize).1

variable (ha : f.leadField? a = some lead)
include ha

theorem not_lt_of_hasLead (hb : Scan.hasLead f (some lead) b = true) :
    (KeyOrder.typed f).compare b a ≠ .lt := by
  rw [Scan.hasLead] at hb
  cases hfield : f.leadField? b with
  | none =>
    rw [hfield] at hb
    cases hb
  | some field =>
    rw [hfield] at hb
    rw [compare_of_leadField? slice hfield ha, Ne, Bytes.compare_eq_lt_iff]
    exact (List.isPrefixOf_iff_prefix.1 hb).le

/-- From a key on, the keys that start with its bytes come first. -/
theorem hasLead_of_lt {c : Bytes} (hb : ∃ field, f.leadField? b = some field)
    (hab : (KeyOrder.typed f).compare b a ≠ .lt) (hbc : (KeyOrder.typed f).compare b c = .lt)
    (hc : Scan.hasLead f (some lead) c = true) : Scan.hasLead f (some lead) b = true := by
  obtain ⟨field, hb⟩ := hb
  rw [Scan.hasLead] at hc ⊢
  cases hother : f.leadField? c with
  | none =>
    rw [hother] at hc
    cases hc
  | some other =>
    rw [hother] at hc
    rw [compare_of_leadField? slice hb ha, Ne, Bytes.compare_eq_lt_iff] at hab
    rw [compare_of_leadField? slice hb hother, Bytes.compare_eq_lt_iff] at hbc
    rw [hb]
    exact List.isPrefixOf_iff_prefix.2
      (Bytes.isPrefix_of_lt hab hbc (List.isPrefixOf_iff_prefix.1 hc))

end Slice

end Format

end Keyspan
