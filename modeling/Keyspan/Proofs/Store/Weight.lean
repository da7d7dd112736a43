import Keyspan.Proofs.Store.Refinement

set_option autoImplicit false
set_option relaxedAutoImplicit false

namespace Keyspan

def Version.weight (v : Version) : Nat :=
  21 + (v.value.getD []).length

def Record.weight (r : Record) : Nat :=
  20 + r.key.length + (r.versions.map Version.weight).sum

def appendWeight (a : Bytes × Version) : Nat :=
  20 + a.1.length + a.2.weight

private theorem Version.length_encode_le (v : Version) : v.encode.length ≤ v.weight := by
  obtain ⟨writer, value⟩ := v
  have hwriter := Varint.length_encode_le writer
  cases value with
  | none =>
    simp only [encode, weight, List.length_append, List.length_cons, List.length_nil]
    omega
  | some b =>
    have hcount := Varint.length_encode_le b.length.toUInt64
    simp only [encode, weight, Varint.encodeSlice, List.length_append, List.length_cons,
      Option.getD_some]
    omega

private theorem length_flatMap_le {α : Type} {write : α → Bytes} {weight : α → Nat}
    (h : ∀ x, (write x).length ≤ weight x) (l : List α) :
    (l.flatMap write).length ≤ (l.map weight).sum := by
  induction l with
  | nil => exact Nat.le_refl 0
  | cons x l ih =>
    have hx := h x
    simp only [List.flatMap_cons, List.length_append, List.map_cons, List.sum_cons]
    omega

private theorem Record.length_encode_le (r : Record) : r.encode.length ≤ r.weight := by
  have hversions := length_flatMap_le Version.length_encode_le r.versions
  have hkey := Varint.length_encode_le r.key.length.toUInt64
  have hcount := Varint.length_encode_le r.versions.length.toUInt64
  simp only [encode, weight, Varint.encodeSlice, List.length_append]
  omega

private theorem Image.length_payload_le (l : List Record) :
    (payload l).length ≤ 10 + (l.map Record.weight).sum := by
  have hrecords := length_flatMap_le Record.length_encode_le l
  have hcount := Varint.length_encode_le l.length.toUInt64
  simp only [payload, List.length_append]
  omega

namespace Flat

variable {order : KeyOrder}

private theorem weight_file_le (key : Bytes) (v : Version) (l : List Record) :
    ((file order key v l).map Record.weight).sum ≤
      (l.map Record.weight).sum + appendWeight (key, v) := by
  induction l with
  | nil =>
    show (20 + key.length + (v.weight + 0)) + 0 ≤ 0 + (20 + key.length + v.weight)
    omega
  | cons x l ih =>
    rw [Flat.file]
    cases order.compare x.key key with
    | lt =>
      simp only [List.map_cons, List.sum_cons]
      omega
    | eq =>
      simp only [List.map_cons, List.sum_cons, Record.weight, Record.push, appendWeight]
      omega
    | gt =>
      simp only [List.map_cons, List.map_nil, List.sum_cons, List.sum_nil, Record.weight,
        appendWeight]
      omega

theorem weight_ofAppends_le (appends : List (Bytes × Version)) :
    ((ofAppends order appends).map Record.weight).sum ≤ (appends.map appendWeight).sum := by
  suffices h : ∀ l, Ascending order l →
      ((appends.foldl (fun l a => append order a.1 a.2 l) l).map Record.weight).sum ≤
        (l.map Record.weight).sum + (appends.map appendWeight).sum by
    have hall := h [] List.Pairwise.nil
    rwa [List.map_nil, List.sum_nil, Nat.zero_add] at hall
  induction appends with
  | nil => exact fun l _ => Nat.le_refl _
  | cons a appends ih =>
    intro l hl
    obtain ⟨key, v⟩ := a
    have hstep := @weight_file_le order key v l
    rw [file_eq_append hl] at hstep
    have hrest := ih _ (hl.append key v)
    rw [List.map_cons, List.sum_cons]
    exact Nat.le_trans hrest (by omega)

end Flat

/-- Memory can hold every payload of a store, if it can hold what was appended. -/
theorem Store.Refines.inMemory {s : Store} {order : KeyOrder} {appends : List (Bytes × Version)}
    (h : s.Refines order appends) (hroom : 10 + (appends.map appendWeight).sum < 2 ^ 64) :
    s.InMemory := by
  intro p hp
  have hpayload := Image.length_payload_le (p.contents s.codec)
  have hpage : ((p.contents s.codec).map Record.weight).sum ≤ (s.records.map Record.weight).sum := by
    obtain ⟨front, back, hpages⟩ := List.append_of_mem hp
    rw [Store.records, hpages, List.flatMap_append, List.flatMap_cons]
    simp only [List.map_append, List.sum_append]
    omega
  have htotal := @Flat.weight_ofAppends_le order appends
  rw [← h.records] at htotal
  omega

end Keyspan
