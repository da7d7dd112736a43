import Keyspan.Proofs.Compression.Literal
import Keyspan.Proofs.Page.Image

/-!
Evicting a page and reloading it loses nothing.

The block that a compression makes of a payload is left open: all that counts is that it decompresses
to the payload again.
-/

set_option autoImplicit false
set_option relaxedAutoImplicit false

namespace Keyspan

/-- An image of some records: a stamped block that decompresses to their payload. -/
def Image.Of (codec : Codec) (c : Compression) (records : List Record) (image : Bytes) : Prop :=
  ∃ block, c.decompress? codec block = some (payload records) ∧ image = stamp block c.tag

namespace Image

variable {codec : Codec} {c : Compression} {records others : List Record} {image : Bytes}

private theorem of_encode (h : encode codec c records = .ok image) : Of codec c records image := by
  rw [encode] at h
  split at h
  next block hblock =>
    exact ⟨block, Compression.decompress?_of_compress? hblock, (Except.ok.inj h).symm⟩
  next => cases h

private theorem Of.decode (h : Of codec c records image) (verify : Bool)
    (hm : (payload records).length < 2 ^ 64) : decode codec verify image = .ok records := by
  obtain ⟨block, hblock, rfl⟩ := h
  exact decode_stamp verify hblock hm

theorem Of.unique (h : Of codec c records image) (k : Of codec c others image)
    (hm : (payload records).length < 2 ^ 64) (km : (payload others).length < 2 ^ 64) :
    others = records := by
  have hdecode := h.decode true hm
  rw [k.decode true km] at hdecode
  exact Except.ok.inj hdecode

end Image

namespace Page

/-- A page whose payload the compression takes is evicted to an image. From every image of its records
the page comes back with just these records, whether the check is compared or not; evicting what is
away or reloading what is there does nothing; and no other records share an image with it. -/
theorem evict_reload_lossless (codec : Codec) (first : Bytes) (records : List Record)
    (c : Compression) (fits : (Image.payload records).length < c.limit codec) :
    (∃ image, evict? codec c ⟨first, .resident records⟩ = .ok (some ⟨first, .evicted image⟩) ∧
      Image.Of codec c records image) ∧
    ∀ image, Image.Of codec c records image →
      (∀ again, evict? codec again ⟨first, .evicted image⟩ = .ok none) ∧
      (∀ verify, reload? codec verify ⟨first, .evicted image⟩ = .ok (some ⟨first, .resident records⟩)) ∧
      (∀ verify, reload? codec verify ⟨first, .resident records⟩ = .ok none) ∧
      ∀ others, (Image.payload others).length < c.limit codec → Image.Of codec c others image →
        others = records := by
  have hm : (Image.payload records).length < 2 ^ 64 := Nat.lt_of_lt_of_le fits c.limit_le
  constructor
  · obtain ⟨image, himage⟩ := Image.exists_encode fits
    refine ⟨image, ?_, Image.of_encode himage⟩
    simp only [evict?, himage]
    rfl
  · intro image himage
    refine ⟨fun _ => rfl, fun verify => ?_, fun _ => rfl, fun others hothers hother => ?_⟩
    · simp only [reload?, himage.decode verify hm]
      rfl
    · exact himage.unique hother hm (Nat.lt_of_lt_of_le hothers c.limit_le)

/-- A record without key and updates, and one with a removal and an empty value. -/
def oddments : List Record :=
  [⟨[], []⟩, ⟨[0], [⟨300, none⟩, ⟨0, some []⟩]⟩]

theorem evict_reload_lossless_oddments :
    (Image.payload oddments).length < Compression.snappy.limit Snappy.codec ∧
      ∃ image, evict? Snappy.codec .snappy ⟨[], .resident oddments⟩ =
          .ok (some ⟨[], .evicted image⟩) ∧
        reload? Snappy.codec true ⟨[], .evicted image⟩ = .ok (some ⟨[], .resident oddments⟩) := by
  have fits : (Image.payload oddments).length < Compression.snappy.limit Snappy.codec := by decide
  obtain ⟨⟨image, hevict, himage⟩, hall⟩ :=
    evict_reload_lossless Snappy.codec [] oddments .snappy fits
  exact ⟨fits, image, hevict, (hall image himage).2.1 true⟩

end Page

end Keyspan
