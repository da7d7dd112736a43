import Keyspan.Text.Blank
import Mathlib.Data.List.TakeWhile

set_option autoImplicit false
set_option relaxedAutoImplicit false

namespace Keyspan.Text

variable {cs word : List Char}

/-- The word that stands between blanks, with none of them at its ends. -/
structure Trims (cs word : List Char) : Prop where
  between : ∃ front back, cs = front ++ word ++ back ∧ (∀ c ∈ front, isBlank c = true) ∧
    ∀ c ∈ back, isBlank c = true
  first : ∀ c, word.head? = some c → isBlank c = false
  last : ∀ c, word.getLast? = some c → isBlank c = false

private theorem isBlank_head_dropWhile (cs : List Char) {c : Char}
    (h : (cs.dropWhile isBlank).head? = some c) : isBlank c = false := by
  have hhead := List.head?_dropWhile_not isBlank cs
  rw [h] at hhead
  exact hhead

private theorem dropWhile_front {front rest : List Char} (hfront : ∀ c ∈ front, isBlank c = true)
    (hrest : ∀ c, rest.head? = some c → isBlank c = false) :
    (front ++ rest).dropWhile isBlank = rest := by
  rw [List.dropWhile_append_of_pos hfront]
  cases rest with
  | nil => rfl
  | cons c rest => exact List.dropWhile_cons_of_neg (by simp [hrest c rfl])

theorem trims_trim (cs : List Char) : Trims cs (trim cs) := by
  let rest := cs.dropWhile isBlank
  have hrest : rest = trim cs ++ (rest.reverse.takeWhile isBlank).reverse := by
    rw [trim, ← List.reverse_append, List.takeWhile_append_dropWhile, List.reverse_reverse]
  refine ⟨⟨cs.takeWhile isBlank, (rest.reverse.takeWhile isBlank).reverse, ?_, ?_, ?_⟩, ?_, ?_⟩
  · rw [List.append_assoc, ← hrest, List.takeWhile_append_dropWhile]
  · exact fun c hc => List.mem_takeWhile_imp hc
  · exact fun c hc => List.mem_takeWhile_imp (List.mem_reverse.1 hc)
  · intro c hc
    refine isBlank_head_dropWhile cs ?_
    show rest.head? = some c
    rw [hrest, List.head?_append, hc]
    rfl
  · intro c hc
    rw [trim, List.getLast?_reverse] at hc
    exact isBlank_head_dropWhile _ hc

theorem Trims.eq (h : Trims cs word) : trim cs = word := by
  obtain ⟨⟨front, back, rfl, hfront, hback⟩, hfirst, hlast⟩ := h
  have hreverse : (back.reverse ++ word.reverse).dropWhile isBlank = word.reverse := by
    refine dropWhile_front (fun c hc => hback c (List.mem_reverse.1 hc)) fun c hc => ?_
    rw [List.head?_reverse] at hc
    exact hlast c hc
  rw [trim, List.append_assoc]
  cases word with
  | nil =>
    -- with no word, what is in front takes the rest with it
    rw [List.nil_append, List.dropWhile_append_of_pos hfront, List.dropWhile_eq_nil_iff.2 hback]
    rfl
  | cons c word =>
    have hrest : (front ++ (c :: word ++ back)).dropWhile isBlank = c :: word ++ back :=
      dropWhile_front hfront fun x hx => hfirst x hx
    rw [hrest, List.reverse_append, hreverse, List.reverse_reverse]

end Keyspan.Text
