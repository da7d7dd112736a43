import Keyspan.Proofs.Bytes
import Keyspan.Varint

set_option autoImplicit false
set_option relaxedAutoImplicit false

namespace Keyspan

theorem toNat_toUInt64 {n : Nat} (h : n < 2 ^ 64) : n.toUInt64.toNat = n := by
  rw [Nat.toUInt64_eq, UInt64.toNat_ofNat']
  omega

namespace Varint

/-- Reading undoes spelling as long as either side has room for the number. -/
theorem groups_spell (k j n : Nat) (rest : Bytes) (hk : n < 128 ^ (k + 1))
    (hj : n < 128 ^ (j + 1)) : groups (j + 1) (spell (k + 1) n ++ rest) = some (n, rest) := by
  induction k generalizing j n with
  | zero =>
    have hn : n < 128 := by simpa using hk
    have hb : n.toUInt8.toNat = n := by simp; omega
    simp [spell, groups, hn, hb]
  | succ k ih =>
    by_cases hn : n < 128
    · have hb : n.toUInt8.toNat = n := by simp; omega
      simp [spell, groups, hn, hb]
    · obtain _ | j := j
      · exact absurd (by simpa using hj) hn
      · have hb : (n % 128 + 128).toUInt8.toNat = n % 128 + 128 := by simp; omega
        have hdk : n / 128 < 128 ^ (k + 1) := by
          rw [Nat.pow_succ] at hk
          exact Nat.div_lt_of_lt_mul (by omega)
        have hdj : n / 128 < 128 ^ (j + 1) := by
          rw [Nat.pow_succ] at hj
          exact Nat.div_lt_of_lt_mul (by omega)
        rw [spell, if_neg hn, List.cons_append, groups, hb, if_neg (by omega), ih j _ hdk hdj]
        simp only [Option.map_some, Option.some.injEq, Prod.mk.injEq, and_true]
        omega

theorem length_spell_le (k n : Nat) : (spell k n).length ≤ k := by
  induction k generalizing n with
  | zero => simp [spell]
  | succ k ih =>
    rw [spell]
    split
    · simp
    · simpa using ih _

theorem encode_ne_nil (n : UInt64) : encode n ≠ [] := by
  rw [encode, maxGroups, spell]
  split <;> simp

theorem length_encode_le (n : UInt64) : (encode n).length ≤ 10 :=
  length_spell_le maxGroups n.toNat

theorem read_encode (n : UInt64) (rest : Bytes) : read (encode n ++ rest) = some (n, rest) := by
  have hn : n.toNat < 2 ^ 64 := n.toNat_lt
  have hg : groups maxGroups (encode n ++ rest) = some (n.toNat, rest) :=
    groups_spell 9 9 n.toNat rest (by omega) (by omega)
  rw [read, hg]
  show (if n.toNat < UInt64.size then some (UInt64.ofNat n.toNat, rest) else none) = some (n, rest)
  rw [if_pos n.toNat_lt_size, UInt64.ofNat_toNat]

/-- Bytes with their length in front read back, whatever follows them. -/
theorem readSlice_encodeSlice (b rest : Bytes) (h : b.length < 2 ^ 64) :
    readSlice (encodeSlice b ++ rest) = some (b, rest) := by
  have hd : drain (encode b.length.toUInt64 ++ (b ++ rest)) =
      (some b.length.toUInt64, b ++ rest) := by
    simp [drain, read_encode]
  simp [readSlice, encodeSlice, drainSlice, hd, toNat_toUInt64 h, Bytes.cut?_append]

/-- These bytes spell a number in base 128, least significant digit first; the last one alone has its
top bit clear. -/
inductive Spells : Bytes → Nat → Prop
  | last {b : UInt8} (h : b.toNat < 128) : Spells [b] b.toNat
  | more {b : UInt8} {spelling : Bytes} {n : Nat} (h : 128 ≤ b.toNat) (rest : Spells spelling n) :
    Spells (b :: spelling) (b.toNat % 128 + 128 * n)

theorem groups_eq_some_iff {k n : Nat} {src rest : Bytes} : groups k src = some (n, rest) ↔
    ∃ spelling, Spells spelling n ∧ spelling.length ≤ k ∧ src = spelling ++ rest := by
  constructor
  · intro h
    induction k generalizing n src rest with
    | zero => cases h
    | succ k ih =>
      cases src with
      | nil => cases h
      | cons b src =>
        rw [groups] at h
        split at h
        next hb =>
          obtain ⟨rfl, rfl⟩ := Prod.mk.inj (Option.some.inj h)
          exact ⟨[b], .last hb, by simp, rfl⟩
        next hb =>
          obtain ⟨⟨m, left⟩, hm, heq⟩ := Option.map_eq_some_iff.1 h
          obtain ⟨rfl, rfl⟩ := Prod.mk.inj heq
          obtain ⟨spelling, hspells, hlen, rfl⟩ := ih hm
          exact ⟨b :: spelling, .more (Nat.le_of_not_lt hb) hspells, Nat.succ_le_succ hlen, rfl⟩
  · rintro ⟨spelling, hspells, hlen, rfl⟩
    induction hspells generalizing k with
    | @last b hb =>
      obtain ⟨k, rfl⟩ := Nat.exists_eq_add_of_le' hlen
      simp only [List.length_singleton, List.singleton_append, groups, if_pos hb]
    | @more b spelling n hb _ ih =>
      obtain ⟨k, rfl⟩ := Nat.exists_eq_add_one_of_ne_zero (show k ≠ 0 by simp at hlen; omega)
      rw [List.length_cons] at hlen
      rw [List.cons_append, groups, if_neg (by omega), ih (by omega)]
      rfl

namespace Spells

variable {spelling other rest rest' : Bytes} {n m : Nat}

theorem ne_nil (h : Spells spelling n) : spelling ≠ [] := by
  cases h <;> exact List.cons_ne_nil _ _

private theorem cons_cases {b : UInt8} (h : Spells (b :: spelling) n) :
    (spelling = [] ∧ n = b.toNat) ∨
      ∃ m, 128 ≤ b.toNat ∧ Spells spelling m ∧ n = b.toNat % 128 + 128 * m := by
  generalize hs : b :: spelling = s at h
  cases h with
  | last hb =>
    obtain ⟨rfl, rfl⟩ := List.cons.inj hs
    exact Or.inl ⟨rfl, rfl⟩
  | more hb hrest =>
    obtain ⟨rfl, rfl⟩ := List.cons.inj hs
    exact Or.inr ⟨_, hb, hrest, rfl⟩

/-- Of two spellings in front of the same bytes neither goes on past the other. -/
theorem append_inj (h : Spells spelling n) (k : Spells other m)
    (heq : spelling ++ rest = other ++ rest') : spelling = other ∧ n = m ∧ rest = rest' := by
  have hread : groups (max spelling.length other.length) (spelling ++ rest) = some (n, rest) :=
    groups_eq_some_iff.2 ⟨spelling, h, Nat.le_max_left _ _, rfl⟩
  have hread' : groups (max spelling.length other.length) (spelling ++ rest) = some (m, rest') :=
    groups_eq_some_iff.2 ⟨other, k, Nat.le_max_right _ _, heq⟩
  rw [hread] at hread'
  obtain ⟨rfl, rfl⟩ := Prod.mk.inj (Option.some.inj hread')
  exact ⟨List.append_cancel_right heq, rfl, rfl⟩

theorem eq_of_length_eq (h : Spells spelling n) (k : Spells other n)
    (hlen : spelling.length = other.length) : spelling = other := by
  induction h generalizing other with
  | @last b hb =>
    obtain ⟨c, rfl⟩ := List.length_eq_one_iff.1 hlen.symm
    rcases k.cons_cases with ⟨-, heq⟩ | ⟨m, -, hnil, -⟩
    · rw [UInt8.toNat_inj.1 heq]
    · exact absurd rfl hnil.ne_nil
  | @more b spelling n hb hrest ih =>
    obtain ⟨c, other, rfl⟩ := List.exists_cons_of_length_eq_add_one hlen.symm
    rcases k.cons_cases with ⟨rfl, -⟩ | ⟨m, hc, hother, heq⟩
    · exact absurd (List.length_eq_zero_iff.1 (Nat.succ.inj hlen)) hrest.ne_nil
    · have hb' : b.toNat < 256 := b.toNat_lt
      have hc' : c.toNat < 256 := c.toNat_lt
      obtain rfl : n = m := by omega
      have hbc : b = c := UInt8.toNat_inj.1 (by omega)
      rw [hbc, ih hother (Nat.succ.inj hlen)]

theorem length_spell_le (h : Spells spelling n) (k : Nat) :
    (spell k n).length ≤ spelling.length := by
  induction h generalizing k with
  | last hb =>
    cases k with
    | zero => exact Nat.zero_le _
    | succ k => rw [spell, if_pos hb]; exact Nat.le_refl 1
  | @more b spelling n hb _ ih =>
    cases k with
    | zero => exact Nat.zero_le _
    | succ k =>
      rw [spell]
      split
      · simp
      · have hdiv : (b.toNat % 128 + 128 * n) / 128 = n := by omega
        rw [hdiv, List.length_cons, List.length_cons]
        exact Nat.succ_le_succ (ih k)

end Spells

private theorem spells_spell (k n : Nat) (h : n < 128 ^ (k + 1)) : Spells (spell (k + 1) n) n := by
  have hread := groups_spell k k n [] h h
  obtain ⟨spelling, hspells, -, heq⟩ := groups_eq_some_iff.1 hread
  rw [List.append_nil, List.append_nil] at heq
  exact heq ▸ hspells

theorem spells_encode (n : UInt64) : Spells (encode n) n.toNat :=
  spells_spell 9 n.toNat (by have := n.toNat_lt; omega)

/-- Reading takes a spelling of at most ten groups off the front. -/
theorem read_eq_some_iff {n : UInt64} {src rest : Bytes} : read src = some (n, rest) ↔
    ∃ spelling, Spells spelling n.toNat ∧ spelling.length ≤ maxGroups ∧ src = spelling ++ rest := by
  rw [← groups_eq_some_iff, read]
  constructor
  · intro h
    split at h
    next m left hm =>
      split at h
      next hlt =>
        obtain ⟨rfl, rfl⟩ := Prod.mk.inj (Option.some.inj h)
        rw [hm, toNat_toUInt64 hlt]
      next => cases h
    next => cases h
  · intro h
    rw [h]
    show (if n.toNat < UInt64.size then some (UInt64.ofNat n.toNat, rest) else none) = _
    rw [if_pos n.toNat_lt_size, UInt64.ofNat_toNat]

theorem readSlice_eq_some_iff {b src rest : Bytes} : readSlice src = some (b, rest) ↔
    ∃ spelling, Spells spelling b.length ∧ spelling.length ≤ maxGroups ∧ b.length < 2 ^ 64 ∧
      src = spelling ++ (b ++ rest) := by
  constructor
  · intro h
    rw [readSlice, drainSlice, drain] at h
    cases hread : read src with
    | none =>
      simp [hread] at h
    | some p =>
      obtain ⟨n, left⟩ := p
      rw [hread] at h
      dsimp only at h
      cases hcut : Bytes.cut? n.toNat left with
      | none => simp [hcut] at h
      | some q =>
        rw [hcut] at h
        obtain ⟨rfl, rfl⟩ := Prod.mk.inj (Option.some.inj h)
        obtain ⟨spelling, hspells, hlen, rfl⟩ := read_eq_some_iff.1 hread
        obtain ⟨rfl, hn⟩ := Bytes.cut?_eq_some_iff.1 hcut
        exact ⟨spelling, hn ▸ hspells, hlen, hn ▸ n.toNat_lt, rfl⟩
  · rintro ⟨spelling, hspells, hlen, hsize, rfl⟩
    have hnum := toNat_toUInt64 hsize
    have hread : read (spelling ++ (b ++ rest)) = some (b.length.toUInt64, b ++ rest) :=
      read_eq_some_iff.2 ⟨spelling, hnum.symm ▸ hspells, hlen, rfl⟩
    simp [readSlice, drainSlice, drain, hread, hnum, Bytes.cut?_append]

theorem encode_eq_iff {n : UInt64} {spelling : Bytes} (h : Spells spelling n.toNat) :
    encode n = spelling ↔ ∀ other, Spells other n.toNat → spelling.length ≤ other.length := by
  constructor
  · rintro rfl other hother
    exact hother.length_spell_le maxGroups
  · intro hshort
    exact (spells_encode n).eq_of_length_eq h
      (Nat.le_antisymm (h.length_spell_le maxGroups) (hshort _ (spells_encode n)))

end Varint

end Keyspan
