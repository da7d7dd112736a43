import Keyspan.Compression
import Keyspan.Compression.Snappy
import Keyspan.Proofs.Varint

/-!
A codec of literal blocks: what it writes is one literal, and it reads all blocks of the format.
-/

set_option autoImplicit false
set_option relaxedAutoImplicit false

namespace Keyspan.Snappy

private theorem readLength_encode (n : Nat) (rest : Bytes) (h : n < maxLength) :
    readLength (Varint.encode n.toUInt64 ++ rest) = some (n, rest) := by
  have hl : n < 2 ^ 32 := h
  have hn : n.toUInt64.toNat = n := toNat_toUInt64 (by omega)
  have hg : Varint.groups maxLengthGroups (Varint.encode n.toUInt64 ++ rest) = some (n, rest) := by
    rw [Varint.encode, hn]
    exact Varint.groups_spell 9 4 n rest (by omega) (by omega)
  simp [readLength, hg, h]

private theorem readElement_literal (raw : Bytes) (hne : raw ≠ []) (h : raw.length < maxLength) :
    readElement (literal raw) = some (.literal raw, []) := by
  have hpos : 0 < raw.length := List.length_pos_iff.2 hne
  have hl : raw.length < 2 ^ 32 := h
  have hcut : Bytes.cut? raw.length raw = some (raw, []) := by
    simpa using Bytes.cut?_append raw []
  rw [literal, if_neg (by simpa using hne)]
  by_cases hs : raw.length ≤ 60
  · -- a short length stands in the tag byte itself
    have ht : ((raw.length - 1) * 4).toUInt8.toNat = (raw.length - 1) * 4 := by simp; omega
    have hn : (raw.length - 1) * 4 / 4 = raw.length - 1 := by omega
    have hr : readLiteral (raw.length - 1) raw = some (.literal raw, []) := by
      rw [readLiteral, if_pos (by omega), Nat.sub_add_cancel hpos, hcut]
      rfl
    rw [if_pos hs, readElement, ht, hn]
    simpa using hr
  · have hd : Bytes.ofLittleEndian (Bytes.littleEndian 4 (raw.length - 1)) = raw.length - 1 :=
      Bytes.ofLittleEndian_littleEndian 4 _ (by omega)
    have hcut4 : Bytes.cut? 4 (Bytes.littleEndian 4 (raw.length - 1) ++ raw) =
        some (Bytes.littleEndian 4 (raw.length - 1), raw) := by
      have := Bytes.cut?_append (Bytes.littleEndian 4 (raw.length - 1)) raw
      rwa [Bytes.length_littleEndian] at this
    have hr : readLiteral 63 (Bytes.littleEndian 4 (raw.length - 1) ++ raw) =
        some (.literal raw, []) := by
      rw [readLiteral, if_neg (by decide), hcut4]
      simp only [Option.bind_eq_bind, Option.bind_some, hd, Nat.sub_add_cancel hpos, hcut]
    rw [if_neg hs, readElement]
    exact hr

private theorem decompress?_of_compress? {raw block : Bytes} (h : compress? raw = some block) :
    decompress? block = some raw := by
  rw [compress?] at h
  split at h
  · rename_i hblock
    have hl : raw.length < maxLength := by
      rw [maxBlockLength] at hblock
      omega
    obtain rfl := Option.some.inj h
    rw [decompress?, readLength_encode raw.length _ hl]
    simp only [Option.bind_eq_bind, Option.bind_some]
    by_cases hne : raw = []
    · subst hne
      rfl
    · have hel := readElement_literal raw hne hl
      obtain ⟨tag, rest, hrest⟩ : ∃ tag rest, literal raw = tag :: rest := by
        rw [literal, if_neg (by simpa using hne)]
        split <;> exact ⟨_, _, rfl⟩
      rw [hrest] at hel
      rw [hrest, List.length_cons, expand, hel]
      · cases rest <;> simp [expand]
      · simp
  · cases h

/-- The codec of literal blocks. -/
def codec : Codec where
  compress? := compress?
  decompress? := decompress?
  limit := 3681400512
  limit_le := by decide
  takes raw short := by
    refine ⟨_, if_pos ?_⟩
    rw [maxBlockLength, maxLength, UInt32.size]
    omega
  inverts := decompress?_of_compress?

end Keyspan.Snappy
