import Keyspan.Proofs.Varint
import Mathlib.Data.Nat.Digits.Defs

/-!
Numbers within 64-bit words.

Writing with shifts gives the shortest spelling. Reading with shifts takes just the spellings that the
reader over natural numbers takes, because a group that would run over the word is refused before it is
shifted in: ten groups hold six bits more than a word, and only the tenth can reach them.
-/

set_option autoImplicit false
set_option relaxedAutoImplicit false

namespace Keyspan.Varint

/-- The number whose base-128 digits are the low seven bits of some bytes, least significant first. -/
def value (b : Bytes) : Nat :=
  Nat.ofDigits 128 (b.map fun x => x.toNat % 128)

def word? (n count : Nat) : Option (UInt64 × Nat) :=
  if n < 2 ^ 64 then some (n.toUInt64, count) else none

section Words

variable {n : UInt64} {count : Nat}

private theorem toNat_shiftRight_seven (n : UInt64) : (n >>> 7).toNat = n.toNat / 128 :=
  Nat.shiftRight_eq_div_pow n.toNat 7

private theorem toNat_low (b : UInt8) : (b &&& 127).toUInt64.toNat = b.toNat % 128 := by
  rw [UInt8.toNat_toUInt64, UInt8.toNat_and]
  exact Nat.and_two_pow_sub_one_eq_mod b.toNat 7

theorem or_top (n : Nat) : n.toUInt8 ||| 128 = (n % 128 + 128).toUInt8 := by
  have hor : ∀ m < 256, m ||| 128 = m % 128 + 128 := by decide +kernel
  apply UInt8.toNat_inj.1
  rw [UInt8.toNat_or, Nat.toUInt8_eq, Nat.toUInt8_eq, UInt8.toNat_ofNat', UInt8.toNat_ofNat']
  show n % 256 ||| 128 = _
  rw [hor _ (Nat.mod_lt n (by decide))]
  omega

private theorem putFrom_eq {k : Nat} (dst : Bytes) (h : n.toNat < 128 ^ (k + 1)) :
    putFrom dst count n =
      (dst ++ spell (k + 1) n.toNat, count + (spell (k + 1) n.toNat).length) := by
  induction k generalizing dst count n with
  | zero =>
    have hn : n.toNat < 128 := by simpa using h
    rw [putFrom, if_pos (UInt64.lt_iff_toNat_lt.2 hn), spell, if_pos hn]
    rfl
  | succ k ih =>
    rw [putFrom, spell]
    by_cases hn : n.toNat < 128
    · rw [if_pos (UInt64.lt_iff_toNat_lt.2 hn), if_pos hn]
      rfl
    · have hdiv : (n >>> 7).toNat < 128 ^ (k + 1) := by
        rw [toNat_shiftRight_seven]
        rw [Nat.pow_succ] at h
        exact Nat.div_lt_of_lt_mul (by omega)
      have htop : n.toUInt8 ||| 128 = (n.toNat % 128 + 128).toUInt8 := or_top n.toNat
      rw [if_neg (fun hlt => hn (UInt64.lt_iff_toNat_lt.1 hlt)), if_neg hn, ih _ hdiv,
        toNat_shiftRight_seven, htop, List.append_assoc, List.singleton_append, List.length_cons,
        Nat.add_assoc, Nat.add_comm 1]

theorem put_eq (dst : Bytes) (n : UInt64) :
    put dst n = (dst ++ encode n, (encode n).length) := by
  have hn : n.toNat < 128 ^ 10 := Nat.lt_trans n.toNat_lt (by decide)
  rw [put, putFrom_eq dst hn, Nat.zero_add]
  rfl

theorem toNat_shift_in {low : UInt64} (h : n.toNat < 128 ^ count)
    (hfits : n.toNat + 128 ^ count * low.toNat < 2 ^ 64) (hcount : count ≤ 9) :
    (n ||| low <<< (7 * count).toUInt64).toNat = n.toNat + 128 ^ count * low.toNat := by
  have hpow : 128 ^ count = 2 ^ (7 * count) := Nat.pow_mul 2 7 count ▸ rfl
  have hshift : (7 * count).toUInt64.toNat % 64 = 7 * count := by
    rw [toNat_toUInt64 (by omega)]
    omega
  have hlow : low.toNat * 2 ^ (7 * count) < 2 ^ 64 := by
    rw [← hpow, Nat.mul_comm]
    omega
  rw [hpow] at h
  rw [UInt64.toNat_or, UInt64.toNat_shiftLeft, hshift, Nat.shiftLeft_eq, Nat.mod_eq_of_lt hlow,
    hpow, Nat.or_comm, Nat.mul_comm, ← Nat.two_pow_add_eq_or_of_lt h, Nat.add_comm]

theorem refused_iff {low : UInt64} (hlow : low.toNat < 128) (h : n.toNat < 128 ^ count)
    (hcount : count ≤ 9) :
    7 * count = 63 ∧ 1 < low ↔ ¬ n.toNat + 128 ^ count * low.toNat < 2 ^ 64 := by
  rw [UInt64.lt_iff_toNat_lt, UInt64.toNat_one]
  rcases Nat.lt_or_eq_of_le hcount with hlt | rfl
  · have hpow : 128 ^ count ≤ 128 ^ 8 := Nat.pow_le_pow_right (by decide) (by omega)
    have hmul := Nat.mul_le_mul hpow (show low.toNat ≤ 127 by omega)
    omega
  · omega

theorem peekFrom_cons (b : UInt8) (rest : Bytes) (h : n.toNat < 128 ^ count) (hcount : count ≤ 9) :
    peekFrom n count (b :: rest) =
      let m := n.toNat + 128 ^ count * (b.toNat % 128)
      if m < 2 ^ 64 then
        if b.toNat < 128 then some (m.toUInt64, count + 1)
        else peekFrom m.toUInt64 (count + 1) rest
      else none := by
  have hlow : (b &&& 127).toUInt64.toNat = b.toNat % 128 := toNat_low b
  have hiff := refused_iff (hlow ▸ Nat.mod_lt b.toNat (by decide)) h hcount
  rw [peekFrom, ← hlow]
  dsimp only
  by_cases hfits : n.toNat + 128 ^ count * (b &&& 127).toUInt64.toNat < 2 ^ 64
  · have hback : ∀ m : UInt64, m.toNat.toUInt64 = m := fun m => UInt64.ofNat_toNat
    rw [if_neg fun hover => hiff.1 hover hfits, if_pos hfits, ← toNat_shift_in h hfits hcount, hback]
    simp only [UInt8.lt_iff_toNat_lt]
    rfl
  · rw [if_pos (hiff.2 hfits), if_neg hfits]

/-- Reading on within words is reading on over natural numbers, with what the groups before make up added
below; what runs over the word fails. -/
theorem peekFrom_eq {k : Nat} (src : Bytes) (h : n.toNat < 128 ^ count)
    (hcount : count + k = maxGroups) :
    peekFrom n count (src.take k) = (groups k src).bind fun p =>
      word? (n.toNat + 128 ^ count * p.1) (count + (src.length - p.2.length)) := by
  induction k generalizing n count src with
  | zero => rfl
  | succ k ih =>
    cases src with
    | nil => rfl
    | cons b src =>
      have hten : count + (k + 1) = 10 := hcount
      rw [List.take_succ_cons, peekFrom_cons b _ h (by omega), groups]
      dsimp only
      by_cases hb : b.toNat < 128
      · rw [if_pos hb, if_pos hb, Nat.mod_eq_of_lt hb, Option.bind_some, word?, List.length_cons,
          Nat.add_sub_cancel_left]
      · rw [if_neg hb, if_neg hb, Option.bind_map]
        have hsum : ∀ m, n.toNat + 128 ^ count * (b.toNat % 128 + 128 * m) =
            n.toNat + 128 ^ count * (b.toNat % 128) + 128 ^ (count + 1) * m := by
          intro m
          rw [Nat.pow_succ]
          ring
        by_cases hfits : n.toNat + 128 ^ count * (b.toNat % 128) < 2 ^ 64
        · have hnext := toNat_toUInt64 hfits
          have hmul : 128 ^ count * (b.toNat % 128) ≤ 128 ^ count * 127 :=
            Nat.mul_le_mul_left _ (by omega)
          rw [if_pos hfits, ih src (by rw [hnext, Nat.pow_succ]; omega) (by omega), hnext]
          refine Option.bind_congr fun p hp => ?_
          obtain ⟨spelling, -, -, rfl⟩ := groups_eq_some_iff.1 hp
          rw [Function.comp_apply, hsum]
          simp only [List.length_cons, List.length_append]
          congr 1
          omega
        · -- what runs over the word is not made up for by the groups above
          rw [if_neg hfits]
          refine (Option.bind_eq_none_iff.2 fun p _ => ?_).symm
          rw [Function.comp_apply, word?, hsum, if_neg (by omega)]

end Words

variable {n : UInt64} {src : Bytes}

theorem peek_eq (src : Bytes) :
    peek src = (read src).map fun p => (p.1, src.length - p.2.length) := by
  rw [peek, peekFrom_eq src (by decide) (Nat.zero_add maxGroups), read]
  cases groups maxGroups src with
  | none => rfl
  | some p =>
    have hvalue : (0 : UInt64).toNat + 128 ^ 0 * p.1 = p.1 := by simp
    rw [Option.bind_some, hvalue, Nat.zero_add, word?]
    dsimp only
    by_cases hfits : p.1 < 2 ^ 64
    · rw [if_pos hfits, if_pos (show p.1 < UInt64.size from hfits)]
      rfl
    · rw [if_neg hfits, if_neg (show ¬ p.1 < UInt64.size from hfits)]
      rfl

theorem peek_eq_some_iff {len : Nat} : peek src = some (n, len) ↔
    ∃ spelling rest, src = spelling ++ rest ∧ Spells spelling n.toNat ∧ spelling.length = len ∧
      len ≤ maxGroups := by
  rw [peek_eq, Option.map_eq_some_iff]
  constructor
  · rintro ⟨⟨m, rest⟩, hread, heq⟩
    obtain ⟨rfl, rfl⟩ := Prod.mk.inj heq
    obtain ⟨spelling, hspells, hlen, rfl⟩ := read_eq_some_iff.1 hread
    exact ⟨spelling, rest, rfl, hspells, by simp, by simpa using hlen⟩
  · rintro ⟨spelling, rest, rfl, hspells, rfl, hlen⟩
    exact ⟨(n, rest), read_eq_some_iff.2 ⟨spelling, hspells, hlen, rfl⟩, by simp⟩

private theorem value_cons (b : UInt8) (rest : Bytes) :
    value (b :: rest) = b.toNat % 128 + 128 * value rest :=
  Nat.ofDigits_cons

private theorem ends_iff (b : UInt8) : decide (b < 128) = true ↔ b.toNat < 128 := by
  rw [decide_eq_true_eq, UInt8.lt_iff_toNat_lt]
  rfl

theorem Spells.findIdx?_eq {spelling : Bytes} {m : Nat} (h : Spells spelling m) (rest : Bytes) :
    (spelling ++ rest).findIdx? (· < 128) = some (spelling.length - 1) := by
  induction h with
  | last hb => rw [List.singleton_append, List.findIdx?_cons, if_pos ((ends_iff _).2 hb)]; rfl
  | @more b spelling m hb hrest ih =>
    have hpos : 0 < spelling.length := List.length_pos_iff.2 hrest.ne_nil
    rw [List.cons_append, List.findIdx?_cons, ih,
      if_neg (fun hlt => Nat.not_lt_of_le hb ((ends_iff b).1 hlt)), Option.map_some,
      List.length_cons, Nat.sub_add_cancel hpos, Nat.add_sub_cancel]

theorem Spells.value_eq {spelling : Bytes} {m : Nat} (h : Spells spelling m) :
    value spelling = m := by
  induction h with
  | last hb => rw [value_cons, Nat.mod_eq_of_lt hb]; rfl
  | more _ _ ih => rw [value_cons, ih]

theorem spells_of_findIdx? {i : Nat} (h : src.findIdx? (· < 128) = some i) :
    Spells (src.take (i + 1)) (value (src.take (i + 1))) := by
  induction src generalizing i with
  | nil => cases h
  | cons b src ih =>
    rw [List.findIdx?_cons] at h
    split at h
    next hb =>
      have hlt := (ends_iff b).1 hb
      obtain rfl := Option.some.inj h
      have hvalue : value [b] = b.toNat := by rw [value_cons, Nat.mod_eq_of_lt hlt]; rfl
      show Spells [b] (value [b])
      exact hvalue ▸ .last hlt
    next hb =>
      obtain ⟨j, hj, rfl⟩ := Option.map_eq_some_iff.1 h
      rw [List.take_succ_cons, value_cons]
      exact .more (Nat.le_of_not_lt fun hlt => hb ((ends_iff b).2 hlt)) (ih hj)

/-- What is read ends with the first byte whose top bit is clear, and is the number that the low bits up
to there make up; it is read if there are at most ten of these bytes and the number fits in a word. -/
theorem peek_eq_some_iff_find {len : Nat} : peek src = some (n, len) ↔
    ∃ i, len = i + 1 ∧ len ≤ maxGroups ∧ src.findIdx? (· < 128) = some i ∧
      value (src.take len) < 2 ^ 64 ∧ n.toNat = value (src.take len) := by
  rw [peek_eq_some_iff]
  constructor
  · rintro ⟨spelling, rest, rfl, hspells, rfl, hgroups⟩
    have hpos : 0 < spelling.length := List.length_pos_iff.2 hspells.ne_nil
    rw [List.take_left, hspells.value_eq]
    exact ⟨spelling.length - 1, (Nat.sub_add_cancel hpos).symm, hgroups, hspells.findIdx?_eq rest,
      n.toNat_lt, rfl⟩
  · rintro ⟨i, rfl, hgroups, hfind, -, hvalue⟩
    have hi : i < src.length := (List.findIdx?_eq_some_iff_getElem.1 hfind).1
    exact ⟨src.take (i + 1), src.drop (i + 1), (List.take_append_drop _ _).symm,
      hvalue ▸ spells_of_findIdx? hfind, List.length_take_of_le hi, hgroups⟩

/-- The tenth byte has one bit to give. -/
example : peek (List.replicate 9 255 ++ [1]) = some (18446744073709551615, 10) ∧
    peek (List.replicate 9 255 ++ [2]) = none := by decide

theorem drain_eq (src : Bytes) : drain src =
    match peek src with
    | some (n, len) => (some n, src.drop len)
    | none => (none, src) := by
  rw [drain, peek_eq]
  cases hread : read src with
  | none => rfl
  | some p =>
    obtain ⟨spelling, -, -, hsrc⟩ := read_eq_some_iff.1 hread
    show (some p.1, p.2) = (some p.1, src.drop (src.length - p.2.length))
    rw [hsrc, List.length_append, Nat.add_sub_cancel, List.drop_left]

private theorem drainSlice_encodeSlice (b rest : Bytes) (h : b.length < 2 ^ 64) :
    drainSlice (encodeSlice b ++ rest) = (some b, rest) := by
  have hread := readSlice_encodeSlice b rest h
  rw [readSlice] at hread
  split at hread
  next b' left hdrain =>
    obtain ⟨rfl, rfl⟩ := Prod.mk.inj (Option.some.inj hread)
    exact hdrain
  next => cases hread

/-- Within words, a number is written as its one shortest spelling, of one to ten bytes, and is read back
from it whatever follows. What is read ends with the first byte whose top bit is clear, which is one of
the first ten, and is the number that the low bits up to there make up, provided it fits in a word.
Draining takes just what was read, or nothing, and bytes with their length in front drain back. -/
theorem put_peek_exact :
    (∀ (n : UInt64) (dst : Bytes), put dst n = (dst ++ encode n, (encode n).length) ∧
      1 ≤ (encode n).length ∧ (encode n).length ≤ 10 ∧
      (∀ rest, peek (encode n ++ rest) = some (n, (encode n).length)) ∧
      Spells (encode n) n.toNat ∧
      ∀ spelling, Spells spelling n.toNat → spelling ≠ encode n →
        (encode n).length < spelling.length) ∧
    (∀ (src : Bytes) (n : UInt64) (len : Nat), peek src = some (n, len) ↔
      ∃ i, len = i + 1 ∧ len ≤ 10 ∧ src.findIdx? (· < 128) = some i ∧
        value (src.take len) < 2 ^ 64 ∧ n.toNat = value (src.take len)) ∧
    (∀ src : Bytes, drain src =
      match peek src with
      | some (n, len) => (some n, src.drop len)
      | none => (none, src)) ∧
    ∀ b rest : Bytes, b.length < 2 ^ 64 → drainSlice (encodeSlice b ++ rest) = (some b, rest) := by
  refine ⟨fun n dst => ⟨put_eq dst n, ?_, length_encode_le n, fun rest => ?_, spells_encode n,
    fun spelling hspells hne => ?_⟩, fun src n len => peek_eq_some_iff_find, drain_eq,
    drainSlice_encodeSlice⟩
  · exact List.length_pos_iff.2 (encode_ne_nil n)
  · exact peek_eq_some_iff.2 ⟨encode n, rest, rfl, spells_encode n, rfl, length_encode_le n⟩
  · refine Nat.lt_of_le_of_ne (hspells.length_spell_le maxGroups) fun hlen => hne ?_
    exact hspells.eq_of_length_eq (spells_encode n) hlen.symm

def padded : Bytes := [172, 130, 0]

theorem put_peek_exact_padded :
    Spells padded (300 : UInt64).toNat ∧ padded ≠ encode 300 ∧
      (encode 300).length < padded.length ∧
      drainSlice (encodeSlice padded ++ [7]) = (some padded, [7]) := by
  have hspells : Spells padded (300 : UInt64).toNat :=
    .more (by decide) (.more (by decide) (.last (by decide)))
  have hne : padded ≠ encode 300 := by decide
  obtain ⟨hwrites, -, -, hslices⟩ := put_peek_exact
  exact ⟨hspells, hne, (hwrites 300 []).2.2.2.2.2 padded hspells hne,
    hslices padded [7] (by decide)⟩

end Keyspan.Varint
