import Keyspan.Error
import Keyspan.Proofs.Compression.Literal
import Keyspan.Proofs.Page.Image
import Keyspan.Store.Basic

/-!
A page does not come back from an image that was damaged in a few places.

Bytes of an image are hit either in the check alone or in what the check was taken of alone. The first
leaves a check that is not the check of payload and tag, and the second leaves a payload and a tag that
have another check, since a window of four bytes makes a difference to it. Whether the damaged payload
would still decompress and decode plays no part: the check is compared first.
-/

set_option autoImplicit false
set_option relaxedAutoImplicit false

namespace Keyspan

namespace Bytes

/-- Strings of the same length that differ at no other positions than `p`. -/
def AlikeOutside (p : Nat → Prop) (x y : Bytes) : Prop :=
  y.length = x.length ∧ ∀ i < x.length, x[i]? ≠ y[i]? → p i

instance (p : Nat → Prop) [DecidablePred p] (x y : Bytes) : Decidable (AlikeOutside p x y) :=
  inferInstanceAs (Decidable (_ ∧ _))

namespace AlikeOutside

variable {p : Nat → Prop} {x y : Bytes}

private theorem eq (h : AlikeOutside p x y) (hp : ∀ i < x.length, ¬ p i) : x = y := by
  apply List.ext_getElem?
  intro i
  by_cases hi : i < x.length
  · exact Decidable.of_not_not fun hne => hp i hi (h.2 i hi hne)
  · have hlen := h.1
    rw [List.getElem?_eq_none (by omega), List.getElem?_eq_none (by omega)]

theorem of_append {a b c d : Bytes} (h : AlikeOutside p (a ++ b) (c ++ d))
    (hlen : c.length = a.length) :
    AlikeOutside p a c ∧ AlikeOutside (fun i => p (a.length + i)) b d := by
  obtain ⟨hlength, hdiffer⟩ := h
  simp only [List.length_append] at hlength hdiffer
  refine ⟨⟨hlen, fun i hi hne => hdiffer i (by omega) ?_⟩,
    ⟨by omega, fun i hi hne => hdiffer (a.length + i) (by omega) ?_⟩⟩
  · rwa [List.getElem?_append_left hi, List.getElem?_append_left (by omega)]
  · rwa [List.getElem?_append_right (by omega), List.getElem?_append_right (by omega),
      show a.length + i - a.length = i by omega, show a.length + i - c.length = i by omega]

theorem exists_window {start width : Nat}
    (h : AlikeOutside p x y) (hp : ∀ i, p i → start ≤ i ∧ i < start + width) :
    ∃ front xs ys back, x = front ++ xs ++ back ∧ y = front ++ ys ++ back ∧
      ys.length = xs.length ∧ xs.length ≤ width := by
  have hlen := h.1
  have hsplit : ∀ z : Bytes,
      z.take start ++ ((z.drop start).take width ++ (z.drop start).drop width) = z := by
    intro z
    rw [List.take_append_drop, List.take_append_drop]
  rw [← hsplit x, ← hsplit y] at h
  obtain ⟨hfront, hrest⟩ := h.of_append (by simp [hlen])
  obtain ⟨hmid, hback⟩ := hrest.of_append (by simp [hlen])
  have hfront' : x.take start = y.take start := by
    refine hfront.eq fun i hi hpi => ?_
    have := hp i hpi
    rw [List.length_take] at hi
    omega
  have hback' : (x.drop start).drop width = (y.drop start).drop width := by
    refine hback.eq fun i hi hpi => ?_
    have := hp _ hpi
    simp only [List.length_drop, List.length_take] at hi this
    omega
  refine ⟨x.take start, (x.drop start).take width, (y.drop start).take width,
    (x.drop start).drop width, ?_, ?_, hmid.1, List.length_take_le _ _⟩
  · rw [List.append_assoc, hsplit]
  · rw [hfront', hback', List.append_assoc, hsplit]

end AlikeOutside

end Bytes

namespace Image

open Bytes (AlikeOutside)

/-- The last four bytes are the check of payload and tag. -/
def Passes (image : Bytes) : Prop :=
  ∃ data tag check, image = data ++ tag :: check ∧ check.length = 4 ∧
    Bytes.ofLittleEndian check = (Checksum.masked data tag).toNat

/-- An image of the same length that differs in nothing but the check, or in nothing but four adjacent
bytes of payload and tag. -/
inductive Damaged (image corrupt : Bytes) : Prop
  | check (h : AlikeOutside (fun i => image.length - 4 ≤ i) image corrupt)
  | window (start : Nat)
    (h : AlikeOutside (fun i => start ≤ i ∧ i < start + 4 ∧ i < image.length - 4) image corrupt)

variable {codec : Codec} {image corrupt : Bytes}

private theorem passes_stamp (data : Bytes) (tag : UInt8) : Passes (stamp data tag) :=
  ⟨data, tag, _, rfl, Bytes.length_littleEndian 4 _,
    Bytes.ofLittleEndian_littleEndian 4 _ (Checksum.masked data tag).toNat_lt⟩

theorem exists_parts (h : 5 ≤ image.length) :
    ∃ data tag check, image = data ++ tag :: check ∧ check.length = 4 := by
  have hdrop : (image.drop (image.length - 5)).length = 5 := by
    rw [List.length_drop]
    omega
  obtain ⟨tag, check, hcheck⟩ := List.exists_cons_of_length_eq_add_one hdrop
  refine ⟨image.take (image.length - 5), tag, check, ?_, ?_⟩
  · rw [← hcheck, List.take_append_drop]
  · rw [hcheck] at hdrop
    exact Nat.succ.inj hdrop

theorem verify_ofLittleEndian_iff {data check : Bytes} {tag : UInt8} (h : check.length = 4) :
    Checksum.verify data tag (Bytes.ofLittleEndian check).toUInt32 = true ↔
      Bytes.ofLittleEndian check = (Checksum.masked data tag).toNat := by
  have hlt : Bytes.ofLittleEndian check < 2 ^ 32 := by
    have := Bytes.ofLittleEndian_lt check
    rwa [h] at this
  rw [Checksum.verify_iff, ← UInt32.toNat_inj, Checksum.toNat_toUInt32 hlt]

/-- The check is compared before anything else of an image is read, and fails just if it is not that of
payload and tag. -/
theorem decode_eq_checksum_iff {data check : Bytes} {tag : UInt8} (h : check.length = 4) :
    decode codec true (data ++ tag :: check) = .error .checksum ↔
      Bytes.ofLittleEndian check ≠ (Checksum.masked data tag).toNat := by
  rw [Ne, ← verify_ofLittleEndian_iff h, decode, split?_append h]
  cases hverify : Checksum.verify data tag (Bytes.ofLittleEndian check).toUInt32 with
  | false => simp [hverify]
  | true =>
    simp only [hverify]
    grind

private theorem Passes.decode_ne (h : Passes image) : decode codec true image ≠ .error .checksum := by
  obtain ⟨data, tag, check, rfl, hlen, hcheck⟩ := h
  exact fun hdecode => (decode_eq_checksum_iff hlen).1 hdecode hcheck

private theorem Damaged.length_eq (h : Damaged image corrupt) : corrupt.length = image.length := by
  cases h with
  | check h => exact h.1
  | window _ h => exact h.1

/-- What a damaged image has kept: payload and tag, or the check and all of payload and tag but a
window. -/
theorem Damaged.exists_parts {covered check covered' check' : Bytes} (hlen : check.length = 4)
    (hlen' : check'.length = 4) (h : Damaged (covered ++ check) (covered' ++ check')) :
    covered' = covered ∨ check' = check ∧ ∃ front xs ys back, covered = front ++ xs ++ back ∧
      covered' = front ++ ys ++ back ∧ ys.length = xs.length ∧ xs.length ≤ 4 := by
  have hsame := h.length_eq
  simp only [List.length_append] at hsame
  cases h with
  | check h =>
    left
    refine ((h.of_append (by omega)).1.eq fun i hi hpi => ?_).symm
    rw [List.length_append] at hpi
    omega
  | window start h =>
    right
    obtain ⟨hcovered, hcheck⟩ := h.of_append (by omega)
    constructor
    · refine (hcheck.eq fun i hi hpi => ?_).symm
      rw [List.length_append] at hpi
      omega
    · exact hcovered.exists_window fun i hi => ⟨hi.1, hi.2.1⟩

/-- Damage to the check leaves another number there. Damage to payload and tag leaves bytes that have
another check. -/
theorem Passes.decode_damaged (h : Passes image) (damaged : Damaged image corrupt)
    (differs : corrupt ≠ image) : decode codec true corrupt = .error .checksum := by
  obtain ⟨data, tag, check, rfl, hlen, hcheck⟩ := h
  have hlong : 5 ≤ corrupt.length := by
    rw [damaged.length_eq, List.length_append, List.length_cons, hlen]
    omega
  obtain ⟨data', tag', check', rfl, hlen'⟩ := exists_parts hlong
  refine (decode_eq_checksum_iff hlen').2 fun hcheck' => differs ?_
  rw [List.append_cons data tag, List.append_cons data' tag'] at damaged ⊢
  -- so far the damaged image passes as well, and then it has kept everything
  obtain hcovered | ⟨rfl, front, xs, ys, back, hxs, hys, hlength, hfour⟩ :=
    damaged.exists_parts hlen hlen'
  · obtain ⟨rfl, htag⟩ := List.append_inj' hcovered rfl
    obtain rfl := List.head_eq_of_cons_eq htag
    rw [Bytes.ofLittleEndian_injective (hlen'.trans hlen.symm) (hcheck'.trans hcheck.symm)]
  · have hmasked : Checksum.masked data tag = Checksum.masked data' tag' :=
      UInt32.toNat_inj.1 (hcheck.symm.trans hcheck')
    have hcrc := Checksum.crc_eq_of_masked_eq hmasked
    rw [hxs, hys] at hcrc
    rw [hxs, hys, Checksum.eq_of_crc_eq hlength hfour hcrc]

end Image

theorem Page.reload?_eq_error_iff {codec : Codec} {verify : Bool} {first image : Bytes}
    {fault : ImageFault} : reload? codec verify ⟨first, .evicted image⟩ = .error fault ↔
      Image.decode codec verify image = .error fault := by
  cases hdecode : Image.decode codec verify image <;>
    simp [reload?, hdecode, bind, Except.bind, pure, Except.pure]

theorem Store.load_of_error {s : Store} {i : Nat} {page : Page} {fault : ImageFault}
    (hpage : s.pages[i]? = some page)
    (hreload : page.reload? s.codec s.paging.verify = .error fault) :
    (load i).run s = .error fault s := by
  simp only [load, EStateM.run_bind, EStateM.run_get, hpage, hreload]
  rfl

/-- A stored check verifies over bytes just if it is their check. So an image that passes does not come
back as a page, once it was damaged a little: neither when the page is reloaded by itself nor when a
store loads it, and the store still has the damaged image afterwards. -/
theorem Page.reload_damaged :
    (∀ data tag stored,
      Checksum.verify data tag stored = true ↔ stored = Checksum.masked data tag) ∧
    Error.ofImage .checksum = .corruption .imageChecksum ∧
    ∀ image corrupt, Image.Passes image → Image.Damaged image corrupt → corrupt ≠ image →
      ∀ codec first,
        reload? codec true ⟨first, .evicted image⟩ ≠ .error .checksum ∧
        reload? codec true ⟨first, .evicted corrupt⟩ = .error .checksum ∧
        ∀ (s : Store) (i : Nat), s.paging.verify = true →
          s.pages[i]? = some ⟨first, .evicted corrupt⟩ →
          (Store.load i).run s = .error .checksum s := by
  refine ⟨fun data tag stored => Checksum.verify_iff, rfl, ?_⟩
  intro image corrupt passes damaged differs codec first
  have hreload : ∀ codec, reload? codec true ⟨first, .evicted corrupt⟩ = .error .checksum := fun _ =>
    reload?_eq_error_iff.2 (passes.decode_damaged damaged differs)
  refine ⟨fun h => passes.decode_ne (reload?_eq_error_iff.1 h), hreload codec,
    fun s i hverify hpage => ?_⟩
  apply Store.load_of_error hpage
  rw [hverify]
  exact hreload s.codec

/-- The image of a page of one record, hit in payload and tag, and in the last two bytes. -/
theorem Page.reload_damaged_single :
    ∃ image, evict? Snappy.codec .plain ⟨[1], .resident [⟨[1], [⟨0, some [7]⟩]⟩]⟩ =
        .ok (some ⟨[1], .evicted image⟩) ∧
      reload? Snappy.codec true ⟨[1], .evicted (image.take 7 ++ 8 :: 1 :: image.drop 9)⟩ =
        .error .checksum ∧
      reload? Snappy.codec true ⟨[1], .evicted (image.take 11 ++ [0, 255])⟩ = .error .checksum ∧
      let s : Store := ⟨.bytewise, { codec := Snappy.codec },
        [⟨[1], .evicted (image.take 11 ++ [0, 255])⟩], {}⟩
      (Store.load 0).run s = .error .checksum s := by
  let image := Image.stamp (Image.payload [⟨[1], [⟨0, some [7]⟩]⟩]) Compression.plain.tag
  have hpasses : Image.Passes image := Image.passes_stamp _ _
  have hwindow := Page.reload_damaged.2.2 image (image.take 7 ++ 8 :: 1 :: image.drop 9) hpasses
    (.window 5 (by decide +kernel)) (by decide +kernel) Snappy.codec [1]
  have hcheck := Page.reload_damaged.2.2 image (image.take 11 ++ [0, 255]) hpasses
    (.check (by decide +kernel)) (by decide +kernel) Snappy.codec [1]
  exact ⟨image, rfl, hwindow.2.1, hcheck.2.1, hcheck.2.2 _ 0 rfl rfl⟩

end Keyspan
