/-!
Lists in which a property holds of a front part only, as "comes before the key" does in a list in
key order: where the front ends, found by halving, and the elements on either side of that place.

The main statements say that on such lists halving finds what a scan from either end finds.
-/

set_option autoImplicit false
set_option relaxedAutoImplicit false

namespace Keyspan.Front

variable {α : Type}

/-- Once `p` fails it does not hold again. -/
def Leads (p : α → Bool) (l : List α) : Prop :=
  l.Pairwise fun a b => p b = true → p a = true

/-- How many of the first `n` elements are in the front, by halving. The first number bounds the
halvings. -/
def lengthWithin (p : α → Bool) : Nat → List α → Nat → Nat
  | 0, _, _ => 0
  | fuel + 1, l, n =>
    if n = 0 then 0
    else
      match l.drop (n / 2) with
      | [] => 0
      | x :: rest =>
        if p x then n / 2 + 1 + lengthWithin p fuel rest (n - (n / 2 + 1))
        else lengthWithin p fuel l (n / 2)

def length (p : α → Bool) (l : List α) : Nat :=
  lengthWithin p l.length l l.length

def last? (p : α → Bool) (l : List α) : Option α :=
  match length p l with
  | 0 => none
  | n + 1 => l[n]?

def next? (p : α → Bool) (l : List α) : Option α :=
  l[length p l]?

theorem Leads.sublist {p : α → Bool} {l m : List α} (h : Leads p m) (hs : l.Sublist m) :
    Leads p l :=
  List.Pairwise.sublist hs h

theorem Leads.not_of_mem_dropWhile {p : α → Bool} {l : List α} (h : Leads p l) :
    ∀ a ∈ l.dropWhile p, ¬ p a = true := by
  cases hd : l.dropWhile p with
  | nil => exact fun _ ha => absurd ha List.not_mem_nil
  | cons x rest =>
    have hx : ¬ p x = true := by
      have hhead := List.head?_dropWhile_not p l
      simpa [hd] using hhead
    have hrest : Leads p (x :: rest) := hd ▸ h.sublist (List.dropWhile_sublist p)
    intro a ha
    rcases List.mem_cons.1 ha with rfl | ha
    · exact hx
    · exact fun hpa => hx ((List.pairwise_cons.1 hrest).1 a ha hpa)

theorem Leads.filter_eq {p : α → Bool} {l : List α} (h : Leads p l) :
    l.filter p = l.takeWhile p := by
  have hback : (l.dropWhile p).filter p = [] := List.filter_eq_nil_iff.2 h.not_of_mem_dropWhile
  have hfront : (l.takeWhile p).filter p = l.takeWhile p :=
    List.filter_eq_self.2 (List.all_eq_true.1 List.all_takeWhile)
  conv => lhs; rw [← List.takeWhile_append_dropWhile (p := p) (l := l)]
  rw [List.filter_append, hfront, hback, List.append_nil]

theorem all_of_leads {p : α → Bool} {l m : List α} {x : α} (h : Leads p (l ++ x :: m))
    (hx : p x = true) : ∀ a ∈ l, p a = true := by
  intro a ha
  exact (List.pairwise_append.1 h).2.2 a ha x List.mem_cons_self hx

theorem take_around_half (l : List α) (n : Nat) (hz : n ≠ 0) (hn : n ≤ l.length) :
    l.take n = l.take (n / 2) ++ l[n / 2] :: (l.drop (n / 2 + 1)).take (n - (n / 2 + 1)) := by
  have hk : n = n / 2 + (1 + (n - (n / 2 + 1))) := by omega
  conv => lhs; rw [hk]
  rw [List.take_add, List.drop_eq_getElem_cons (by omega), Nat.add_comm 1, List.take_succ_cons]

theorem lengthWithin_eq (p : α → Bool) (fuel : Nat) (l : List α) (n : Nat) (h : Leads p l)
    (hf : n ≤ fuel) (hn : n ≤ l.length) :
    lengthWithin p fuel l n = ((l.take n).takeWhile p).length := by
  induction fuel generalizing l n with
  | zero =>
    obtain rfl : n = 0 := by omega
    simp [lengthWithin]
  | succ fuel ih =>
    by_cases hz : n = 0
    · simp [lengthWithin, hz]
    · have hd : n / 2 < l.length := by omega
      have ht := take_around_half l n hz hn
      have hall : p l[n / 2] = true → ∀ a ∈ l.take (n / 2), p a = true := fun hx =>
        all_of_leads (ht ▸ h.sublist (List.take_sublist n l)) hx
      rw [lengthWithin, if_neg hz, List.drop_eq_getElem_cons hd]
      dsimp only
      by_cases hx : p l[n / 2] = true
      · rw [if_pos hx, ih _ _ (h.sublist (List.drop_sublist _ _)) (by omega) (by simp; omega), ht,
          List.takeWhile_append_of_pos (hall hx), List.takeWhile_cons_of_pos hx]
        simp only [List.length_append, List.length_cons, List.length_take]
        omega
      · rw [if_neg hx, ih _ _ h (by omega) (by omega), ht, List.takeWhile_append]
        split
        next hw => rw [List.takeWhile_cons_of_neg hx, List.append_nil, hw]
        next => rfl

theorem lengthWithin_le (p : α → Bool) (fuel : Nat) (l : List α) (n : Nat) :
    lengthWithin p fuel l n ≤ n := by
  induction fuel generalizing l n with
  | zero => exact Nat.zero_le n
  | succ fuel ih =>
    rw [lengthWithin]
    by_cases hn : n = 0
    · rw [if_pos hn]
      exact Nat.zero_le n
    · rw [if_neg hn]
      cases l.drop (n / 2) with
      | nil => exact Nat.zero_le n
      | cons x rest =>
        have hpast := ih rest (n - (n / 2 + 1))
        have hbefore := ih l (n / 2)
        dsimp only
        split <;> omega

theorem length_le (p : α → Bool) (l : List α) : length p l ≤ l.length :=
  lengthWithin_le p l.length l l.length

/-- Halving counts what a scan from the start counts. -/
theorem length_eq (p : α → Bool) (l : List α) (h : Leads p l) :
    length p l = (l.takeWhile p).length := by
  rw [length, lengthWithin_eq p _ l _ h (Nat.le_refl _) (Nat.le_refl _), List.take_length]

theorem next?_eq (p : α → Bool) (l : List α) (h : Leads p l) :
    next? p l = l.find? fun x => !p x := by
  rw [next?, length_eq p l h]
  clear h
  induction l with
  | nil => rfl
  | cons x l ih => by_cases hx : p x = true <;> simp_all

theorem last?_eq (p : α → Bool) (l : List α) (h : Leads p l) :
    last? p l = l.reverse.find? p := by
  rw [last?, length_eq p l h]
  induction l with
  | nil => rfl
  | cons x l ih =>
    have hl := ih (List.pairwise_cons.1 h).2
    by_cases hx : p x = true
    · rw [List.takeWhile_cons_of_pos hx, List.reverse_cons, List.find?_append, ← hl]
      cases hn : (l.takeWhile p).length with
      | zero => simp [hn, hx]
      | succ n =>
        have hn' : n < l.length := by
          have := (List.takeWhile_sublist (l := l) p).length_le
          omega
        simp [hn, hn']
    · have hnone : ∀ a ∈ (x :: l).reverse, ¬ p a = true := by
        intro a ha hp
        rcases List.mem_cons.1 (List.mem_reverse.1 ha) with rfl | ha
        · exact hx hp
        · exact hx ((List.pairwise_cons.1 h).1 a ha hp)
      rw [List.takeWhile_cons_of_neg hx, List.find?_eq_none.2 hnone]
      rfl

end Keyspan.Front
