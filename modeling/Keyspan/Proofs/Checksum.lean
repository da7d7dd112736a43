import Keyspan.Checksum
import Keyspan.Proofs.Bytes

/-!
What a check tells apart.

Shifting a remainder is linear in exclusive or and loses nothing. So the bytes ahead may be put into the
remainder beforehand, side by side, as long as there is room for them: four bytes make a difference to it
unless they are the same, and no bytes that follow undo a difference. Masking a check loses nothing
either.
-/

set_option autoImplicit false
set_option relaxedAutoImplicit false

namespace Keyspan.Checksum

variable {r q : UInt32}

section Shift

private theorem and_one_eq_one_iff (r : UInt32) : r &&& 1 = 1 ↔ r.toNat % 2 = 1 := by
  rw [← UInt32.toNat_inj, UInt32.toNat_and, ← Nat.and_one_is_mod]
  rfl

private theorem shift_of_odd (h : r.toNat % 2 = 1) : shift r = (r >>> 1) ^^^ polynomial :=
  if_pos ((and_one_eq_one_iff r).2 h)

private theorem shift_of_even (h : r.toNat % 2 = 0) : shift r = r >>> 1 := by
  refine if_neg fun hodd => ?_
  have := (and_one_eq_one_iff r).1 hodd
  omega

private theorem toNat_shiftRight_one (r : UInt32) : (r >>> 1).toNat = r.toNat / 2 := by
  rw [UInt32.toNat_shiftRight]
  exact Nat.shiftRight_eq_div_pow r.toNat 1

theorem toNat_xor_mod_two (r q : UInt32) :
    (r ^^^ q).toNat % 2 = (r.toNat % 2 + q.toNat % 2) % 2 := by
  have hmod : (r ^^^ q).toNat % 2 = (r.toNat % 2) ^^^ (q.toNat % 2) := by
    rw [UInt32.toNat_xor]
    exact Nat.xor_mod_two_pow (n := 1)
  rw [hmod]
  rcases Nat.mod_two_eq_zero_or_one r.toNat with hr | hr <;>
    rcases Nat.mod_two_eq_zero_or_one q.toNat with hq | hq <;> rw [hr, hq] <;> rfl

private theorem xor_xor_cancel (a b p : UInt32) : (a ^^^ p) ^^^ (b ^^^ p) = a ^^^ b := by
  rw [UInt32.xor_comm b p, ← UInt32.xor_assoc, UInt32.xor_assoc a p p, UInt32.xor_self,
    UInt32.xor_zero]

theorem shift_xor (r q : UInt32) : shift (r ^^^ q) = shift r ^^^ shift q := by
  have hxor := toNat_xor_mod_two r q
  rcases Nat.mod_two_eq_zero_or_one r.toNat with hr | hr <;>
    rcases Nat.mod_two_eq_zero_or_one q.toNat with hq | hq <;> rw [hr, hq] at hxor
  · rw [shift_of_even hxor, shift_of_even hr, shift_of_even hq, UInt32.shiftRight_xor]
  · rw [shift_of_odd hxor, shift_of_even hr, shift_of_odd hq, UInt32.shiftRight_xor,
      UInt32.xor_assoc]
  · rw [shift_of_odd hxor, shift_of_odd hr, shift_of_even hq, UInt32.shiftRight_xor,
      UInt32.xor_assoc, UInt32.xor_assoc, UInt32.xor_comm polynomial]
  · rw [shift_of_even hxor, shift_of_odd hr, shift_of_odd hq, UInt32.shiftRight_xor,
      xor_xor_cancel]

theorem eq_zero_of_shift (h : shift r = 0) : r = 0 := by
  have hhalf := toNat_shiftRight_one r
  have hlt := r.toNat_lt
  rcases Nat.mod_two_eq_zero_or_one r.toNat with hr | hr
  · rw [shift_of_even hr] at h
    rw [h] at hhalf
    have hzero : r.toNat = 0 := by
      rw [UInt32.toNat_zero] at hhalf
      omega
    exact UInt32.toNat_inj.1 hzero
  · rw [shift_of_odd hr] at h
    have hsame : r >>> 1 = polynomial := by
      rw [← UInt32.xor_left_inj polynomial, h, UInt32.xor_self]
    rw [hsame] at hhalf
    have hpolynomial : polynomial.toNat = 0xEDB88320 := rfl
    omega

private theorem shift_injective (h : shift r = shift q) : r = q := by
  have hzero : shift (r ^^^ q) = 0 := by
    rw [shift_xor, h, UInt32.xor_self]
  have hsame := eq_zero_of_shift hzero
  rw [← UInt32.xor_left_inj q, hsame, UInt32.xor_self]

end Shift

section Shifts

private theorem shifts_add (m n : Nat) (r : UInt32) : shifts (m + n) r = shifts n (shifts m r) := by
  induction m generalizing r with
  | zero => rw [Nat.zero_add, shifts]
  | succ m ih => rw [Nat.succ_add, shifts, shifts, ih]

private theorem shifts_xor (n : Nat) (r q : UInt32) :
    shifts n (r ^^^ q) = shifts n r ^^^ shifts n q := by
  induction n generalizing r q with
  | zero => rfl
  | succ n ih => rw [shifts, shift_xor, ih, shifts, shifts]

private theorem shifts_injective {n : Nat} (h : shifts n r = shifts n q) : r = q := by
  induction n generalizing r q with
  | zero => exact h
  | succ n ih => exact shift_injective (ih h)

theorem toNat_shifts {n : Nat} (h : 2 ^ n ∣ r.toNat) : (shifts n r).toNat = r.toNat / 2 ^ n := by
  induction n generalizing r with
  | zero => rw [shifts, Nat.pow_zero, Nat.div_one]
  | succ n ih =>
    obtain ⟨m, hm⟩ := h
    have hm' : r.toNat = 2 * (2 ^ n * m) := by
      rw [hm, Nat.pow_succ, Nat.mul_comm (2 ^ n) 2, Nat.mul_assoc]
    have hhalf : (shift r).toNat = 2 ^ n * m := by
      rw [shift_of_even (by omega), toNat_shiftRight_one]
      omega
    rw [shifts, ih ⟨m, hhalf⟩, hhalf, hm, Nat.mul_div_cancel_left _ (Nat.two_pow_pos n),
      Nat.mul_div_cancel_left _ (Nat.two_pow_pos (n + 1))]

end Shifts

section Feed

theorem toNat_toUInt32 {n : Nat} (h : n < 2 ^ 32) : n.toUInt32.toNat = n := by
  rw [Nat.toUInt32_eq, UInt32.toNat_ofNat']
  omega

theorem byte_xor_toUInt32 (b : UInt8) {m : Nat} (h : 256 * m < 2 ^ 32) :
    b.toUInt32 ^^^ (256 * m).toUInt32 = (b.toNat + 256 * m).toUInt32 := by
  have hb : b.toNat < 2 ^ 8 := b.toNat_lt
  have hsum : b.toNat ^^^ (256 * m) = b.toNat + 256 * m := by
    rw [Nat.add_comm]
    refine Nat.eq_of_testBit_eq fun i => ?_
    have hhigh : (2 ^ 8 * m).testBit i = (decide (i ≥ 8) && m.testBit (i - 8)) :=
      Nat.testBit_two_pow_mul ..
    rw [Nat.testBit_xor, show 256 = 2 ^ 8 from rfl, hhigh, Nat.testBit_two_pow_mul_add m hb]
    by_cases hi : i < 8
    · simp [hi, Nat.not_le.2 hi]
    · have hlow : b.toNat.testBit i = false :=
        Nat.testBit_lt_two_pow (Nat.lt_of_lt_of_le hb (Nat.pow_le_pow_right (by decide) (by omega)))
      simp [hi, Nat.not_lt.1 hi, hlow]
  rw [← UInt32.toNat_inj, UInt32.toNat_xor, UInt8.toNat_toUInt32, toNat_toUInt32 h, hsum,
    toNat_toUInt32 (by omega)]

theorem foldl_feed (r : UInt32) {xs : Bytes} (h : xs.length ≤ 4) :
    xs.foldl feed r = shifts (8 * xs.length) (r ^^^ (Bytes.ofLittleEndian xs).toUInt32) := by
  induction xs generalizing r with
  | nil => exact UInt32.xor_zero.symm
  | cons x xs ih =>
    rw [List.length_cons] at h
    have hlt : Bytes.ofLittleEndian xs < 256 ^ 3 :=
      Nat.lt_of_lt_of_le (Bytes.ofLittleEndian_lt xs) (Nat.pow_le_pow_right (by decide) (by omega))
    have hroom : 256 * Bytes.ofLittleEndian xs < 2 ^ 32 := by omega
    -- what is added after the shifts of this byte may be added above it before them
    have hraise : (Bytes.ofLittleEndian xs).toUInt32 =
        shifts 8 (256 * Bytes.ofLittleEndian xs).toUInt32 := by
      rw [← UInt32.toNat_inj, toNat_shifts, toNat_toUInt32 hroom, toNat_toUInt32 (by omega)]
      · omega
      · rw [toNat_toUInt32 hroom]
        exact Nat.dvd_mul_right 256 _
    rw [List.foldl_cons, ih (feed r x) (by omega), hraise, feed, ← shifts_xor, ← shifts_add,
      UInt32.xor_assoc, byte_xor_toUInt32 x hroom, List.length_cons, Nat.mul_succ, Nat.add_comm 8]
    rfl

theorem foldl_feed_injective {back : Bytes} (h : back.foldl feed r = back.foldl feed q) : r = q := by
  induction back generalizing r q with
  | nil => exact h
  | cons b back ih => exact (UInt32.xor_left_inj _).1 (shifts_injective (ih h))

/-- Bytes in a window of at most four come to the same check only if they are the same. -/
theorem eq_of_crc_eq {front xs ys back : Bytes} (hlen : ys.length = xs.length) (h : xs.length ≤ 4)
    (hcrc : crc (front ++ xs ++ back) = crc (front ++ ys ++ back)) : xs = ys := by
  have hfeeds := (UInt32.xor_left_inj _).1 hcrc
  simp only [List.foldl_append] at hfeeds
  have hwindow := foldl_feed_injective hfeeds
  have hys : ys.length ≤ 4 := by omega
  have hfirst := foldl_feed (front.foldl feed 0xFFFFFFFF) h
  have hsecond := foldl_feed (front.foldl feed 0xFFFFFFFF) hys
  rw [hfirst, hsecond, hlen] at hwindow
  have hsame := (UInt32.xor_right_inj _).1 (shifts_injective hwindow)
  have hroom : ∀ b : Bytes, b.length ≤ 4 → Bytes.ofLittleEndian b < 2 ^ 32 := fun b hb =>
    Nat.lt_of_lt_of_le (Bytes.ofLittleEndian_lt b) (Nat.pow_le_pow_right (n := 256) (by decide) hb)
  have hvalue := congrArg UInt32.toNat hsame
  rw [toNat_toUInt32 (hroom xs h), toNat_toUInt32 (hroom ys hys)] at hvalue
  exact Bytes.ofLittleEndian_injective hlen.symm hvalue

end Feed

section Mask

theorem rotate_rotate {j k : Nat} (h : j + k = 32) (b : BitVec 32) :
    ((b >>> j ||| b <<< k) >>> k) ||| ((b >>> j ||| b <<< k) <<< j) = b := by
  ext i hi
  simp only [BitVec.getElem_or, BitVec.getElem_ushiftRight, BitVec.getElem_shiftLeft,
    BitVec.getLsbD_or, BitVec.getLsbD_ushiftRight, BitVec.getLsbD_shiftLeft]
  by_cases hlow : i < j
  · have hin : k + i < 32 := by omega
    have hup : k + i - k = i := by omega
    have hout : b.getLsbD (j + (k + i)) = false := BitVec.getLsbD_of_ge _ _ (by omega)
    simp [hlow, hin, hup, hout, BitVec.getLsbD_eq_getElem hi]
  · have hout : b.getLsbD (j + (k + i)) = false := BitVec.getLsbD_of_ge _ _ (by omega)
    have hin : ¬ k + i < 32 := by omega
    have hback : j + (i - j) = i := by omega
    have hdown : i - j < k := by omega
    simp [hlow, hin, hback, hdown, hout, BitVec.getLsbD_eq_getElem hi]

theorem unmask_mask (check : UInt32) : unmask (mask check) = check := by
  have hadd : mask check - maskOffset = (check >>> 15) ||| (check <<< 17) := by
    simp [mask]
  apply UInt32.toBitVec_inj.1
  rw [unmask]
  simp only [hadd]
  simpa using rotate_rotate (j := 15) (k := 17) rfl check.toBitVec

private theorem mask_unmask (stored : UInt32) : mask (unmask stored) = stored := by
  have hrotate : (unmask stored >>> 15) ||| (unmask stored <<< 17) = stored - maskOffset := by
    apply UInt32.toBitVec_inj.1
    rw [unmask]
    simpa using rotate_rotate (j := 17) (k := 15) rfl (stored - maskOffset).toBitVec
  rw [mask, hrotate]
  simp

theorem crc_eq_of_masked_eq {data data' : Bytes} {tag tag' : UInt8}
    (h : masked data tag = masked data' tag') : crc (data ++ [tag]) = crc (data' ++ [tag']) := by
  rw [← unmask_mask (crc (data ++ [tag])), ← unmask_mask (crc (data' ++ [tag']))]
  exact congrArg unmask h

theorem verify_iff {data : Bytes} {tag : UInt8} {stored : UInt32} :
    verify data tag stored = true ↔ stored = masked data tag := by
  rw [verify, beq_iff_eq, masked]
  constructor
  · intro h
    rw [h, mask_unmask]
  · rintro rfl
    exact (unmask_mask _).symm

theorem verify_masked (data : Bytes) (tag : UInt8) : verify data tag (masked data tag) = true :=
  verify_iff.2 rfl

end Mask

end Keyspan.Checksum
