import Mathlib.Algebra.Ring.Nat
import Keyspan.Bytes

set_option autoImplicit false
set_option relaxedAutoImplicit false

namespace Keyspan.Bytes

theorem cut?_append (b rest : Bytes) : cut? b.length (b ++ rest) = some (b, rest) := by
  have h : holds b.length (b ++ rest) = true := by
    rw [holds_iff]
    simp
  rw [cut?, if_pos h, List.splitAt_eq, List.take_left, List.drop_left]

theorem cut?_eq_some_iff {n : Nat} {src b rest : Bytes} :
    cut? n src = some (b, rest) ↔ src = b ++ rest ∧ b.length = n := by
  constructor
  · intro h
    rw [cut?] at h
    split at h
    next hn =>
      rw [List.splitAt_eq] at h
      obtain ⟨rfl, rfl⟩ := Prod.mk.inj (Option.some.inj h)
      exact ⟨(List.take_append_drop n src).symm, List.length_take_of_le ((holds_iff n src).1 hn)⟩
    next => cases h
  · rintro ⟨rfl, rfl⟩
    exact cut?_append b rest

theorem ofText_of_toText? {b : Bytes} {s : String} (h : toText? b = some s) : ofText s = b := by
  rw [toText?, String.fromUTF8?] at h
  split at h
  next hvalid =>
    rw [← Option.some.inj h]
    rfl
  next => cases h

theorem length_littleEndian (width n : Nat) : (littleEndian width n).length = width := by
  induction width generalizing n with
  | zero => rfl
  | succ w ih => simp [littleEndian, ih]

theorem length_bigEndian (width n : Nat) : (bigEndian width n).length = width := by
  simp [bigEndian, length_littleEndian]

theorem ofLittleEndian_littleEndian (width n : Nat) (h : n < 256 ^ width) :
    ofLittleEndian (littleEndian width n) = n := by
  induction width generalizing n with
  | zero => simp [littleEndian, ofLittleEndian] at *; omega
  | succ w ih =>
    have hdiv : n / 256 < 256 ^ w := by
      rw [Nat.pow_succ] at h
      exact Nat.div_lt_of_lt_mul (by omega)
    simp only [littleEndian, ofLittleEndian, ih _ hdiv, Nat.toUInt8_eq, UInt8.toNat_ofNat']
    omega

private theorem ofBigEndian_eq (b : Bytes) : ofBigEndian b = ofLittleEndian b.reverse := by
  suffices h : ∀ c : Bytes, c.foldr (fun x n => 256 * n + x.toNat) 0 = ofLittleEndian c by
    rw [ofBigEndian, ← h, List.foldr_reverse]
  intro c
  induction c with
  | nil => rfl
  | cons x rest ih => simp only [List.foldr_cons, ih, ofLittleEndian, Nat.add_comm]

theorem ofBigEndian_bigEndian (width n : Nat) (h : n < 256 ^ width) :
    ofBigEndian (bigEndian width n) = n := by
  simp [ofBigEndian_eq, bigEndian, ofLittleEndian_littleEndian width n h]

private theorem littleEndian_ofLittleEndian (b : Bytes) :
    littleEndian b.length (ofLittleEndian b) = b := by
  induction b with
  | nil => rfl
  | cons x rest ih =>
    have hx : x.toNat < 256 := x.toNat_lt
    have hlow : (x.toNat + 256 * ofLittleEndian rest).toUInt8 = x := by
      apply UInt8.toNat_inj.1
      simp only [Nat.toUInt8_eq, UInt8.toNat_ofNat']
      omega
    have hhigh : (x.toNat + 256 * ofLittleEndian rest) / 256 = ofLittleEndian rest := by omega
    rw [List.length_cons, ofLittleEndian, littleEndian, hlow, hhigh, ih]

theorem bigEndian_ofBigEndian (b : Bytes) : bigEndian b.length (ofBigEndian b) = b := by
  rw [bigEndian, ofBigEndian_eq, ← List.length_reverse, littleEndian_ofLittleEndian,
    List.reverse_reverse]

theorem ofLittleEndian_lt (b : Bytes) : ofLittleEndian b < 256 ^ b.length := by
  induction b with
  | nil => exact Nat.one_pos
  | cons x rest ih =>
    have hx : x.toNat < 256 := x.toNat_lt
    rw [ofLittleEndian, List.length_cons, Nat.pow_succ]
    omega

theorem ofLittleEndian_injective {x y : Bytes} (hlen : x.length = y.length)
    (h : ofLittleEndian x = ofLittleEndian y) : x = y := by
  rw [← littleEndian_ofLittleEndian x, ← littleEndian_ofLittleEndian y, hlen, h]

theorem ofBigEndian_lt (b : Bytes) : ofBigEndian b < 256 ^ b.length := by
  rw [ofBigEndian_eq, ← List.length_reverse]
  exact ofLittleEndian_lt b.reverse

end Keyspan.Bytes
