import Keyspan.Store.Append
import Keyspan.Store.Seek

/-!
A store without pages: records in one list, in key order.

An update goes to the record that compares equal to its key, or makes a new record between those
below and those above. A seek takes the least or the greatest record on its side. On an ascending list
`Record.file` is the former, which a scan of the list shows.
-/

set_option autoImplicit false
set_option relaxedAutoImplicit false

namespace Keyspan.Flat

open Std

variable {order : KeyOrder}

/-- The keys are strictly ascending, so no two compare equal. -/
def Ascending (order : KeyOrder) (l : List Record) : Prop :=
  l.Pairwise fun a b => order.compare a.key b.key = .lt

/-- Appends an update: to the record that compares equal, which keeps its key, or as a new record. -/
def append (order : KeyOrder) (key : Bytes) (v : Version) (l : List Record) : List Record :=
  if l.any fun r => order.compare r.key key = .eq then
    l.map fun r => if order.compare r.key key = .eq then r.push v else r
  else
    l.filter (fun r => order.compare r.key key = .lt) ++ ⟨key, [v]⟩ ::
      l.filter fun r => order.compare r.key key = .gt

/-- Files an update by going through the records up to its key. -/
def file (order : KeyOrder) (key : Bytes) (v : Version) : List Record → List Record
  | [] => [⟨key, [v]⟩]
  | r :: rest =>
    match order.compare r.key key with
    | .lt => r :: file order key v rest
    | .eq => r.push v :: rest
    | .gt => ⟨key, [v]⟩ :: r :: rest

/-- The record that a seek picks: the least one on its side when it looks toward larger keys, the
greatest one when it looks toward smaller keys. -/
def pick (order : KeyOrder) (l : List Record) : Seek → Option Record
  | .first => l.head?
  | .last => l.getLast?
  | .exact key => l.find? fun r => order.compare r.key key = .eq
  | .atOrAfter key => l.find? fun r => order.compare r.key key ≠ .lt
  | .after key => l.find? fun r => order.compare r.key key = .gt
  | .atOrBefore key => l.reverse.find? fun r => order.compare r.key key ≠ .gt
  | .before key => l.reverse.find? fun r => order.compare r.key key = .lt

def ofAppends (order : KeyOrder) (appends : List (Bytes × Version)) : List Record :=
  appends.foldl (fun l a => append order a.1 a.2 l) []

theorem Ascending.leads {l : List Record} (h : Ascending order l) {p : Record → Bool}
    (hp : ∀ a b, order.compare a.key b.key = .lt → p b = true → p a = true) : Front.Leads p l :=
  List.Pairwise.imp (fun {a b} hab => hp a b hab) h

theorem Ascending.leads_below {l : List Record} (h : Ascending order l) (key : Bytes) :
    Front.Leads (fun r : Record => (order.compare r.key key).isLT) l := by
  refine h.leads fun a b hab hb => ?_
  have hbk : order.compare b.key key = .lt := by simpa using hb
  simp [TransCmp.lt_trans hab hbk]

/-- On an ascending list, halving finds the place that a scan comes to. -/
theorem Ascending.file_eq {l : List Record} (h : Ascending order l) (key : Bytes) (v : Version) :
    Record.file order key v l = file order key v l := by
  let below (r : Record) : Bool := (order.compare r.key key).isLT
  have hsplit : l.takeWhile below ++ l.dropWhile below = l := List.takeWhile_append_dropWhile
  have htake : l.take (l.takeWhile below).length = l.takeWhile below := by
    conv => lhs; arg 2; rw [← hsplit]
    exact List.take_left
  have hdrop : l.drop (l.takeWhile below).length = l.dropWhile below := by
    conv => lhs; arg 2; rw [← hsplit]
    exact List.drop_left
  rw [Record.file, Front.length_eq _ _ (h.leads_below key)]
  simp only [show (fun r : Record => (order.compare r.key key).isLT) = below from rfl, htake, hdrop]
  clear hsplit htake hdrop h
  induction l with
  | nil => rfl
  | cons x l ih =>
    rw [file]
    cases hx : order.compare x.key key with
    | lt =>
      have hbelow : below x = true := by simp [below, hx]
      rw [List.takeWhile_cons_of_pos hbelow, List.dropWhile_cons_of_pos hbelow]
      dsimp only
      rw [← ih]
      cases l.dropWhile below with
      | nil => rfl
      | cons r rest => dsimp only; split <;> rfl
    | eq =>
      have hbelow : ¬ below x = true := by simp [below, hx]
      rw [List.takeWhile_cons_of_neg hbelow, List.dropWhile_cons_of_neg hbelow]
      exact if_pos hx
    | gt =>
      have hbelow : ¬ below x = true := by simp [below, hx]
      rw [List.takeWhile_cons_of_neg hbelow, List.dropWhile_cons_of_neg hbelow]
      exact if_neg (by simp [hx])

theorem key_of_mem_file {key : Bytes} {v : Version} {l : List Record} {r : Record}
    (h : r ∈ file order key v l) : r.key = key ∨ ∃ x ∈ l, x.key = r.key := by
  induction l with
  | nil =>
    obtain rfl := List.mem_singleton.1 h
    exact Or.inl rfl
  | cons x l ih =>
    rw [file] at h
    split at h
    · rcases List.mem_cons.1 h with rfl | h
      · exact Or.inr ⟨r, List.mem_cons_self, rfl⟩
      · rcases ih h with hr | ⟨y, hy, hr⟩
        · exact Or.inl hr
        · exact Or.inr ⟨y, List.mem_cons_of_mem x hy, hr⟩
    · rcases List.mem_cons.1 h with rfl | h
      · exact Or.inr ⟨x, List.mem_cons_self, rfl⟩
      · exact Or.inr ⟨r, List.mem_cons_of_mem x h, rfl⟩
    · rcases List.mem_cons.1 h with rfl | h
      · exact Or.inl rfl
      · exact Or.inr ⟨r, h, rfl⟩

theorem file_append_left {key : Bytes} (v : Version) {l : List Record} (m : List Record)
    (h : ∀ r ∈ l, order.compare r.key key = .lt) :
    file order key v (l ++ m) = l ++ file order key v m := by
  induction l with
  | nil => rfl
  | cons x l ih =>
    rw [List.cons_append, file, h x List.mem_cons_self]
    exact congrArg (x :: ·) (ih fun r hr => h r (List.mem_cons_of_mem x hr))

theorem file_append_right {key : Bytes} (v : Version) (l : List Record) {m : List Record}
    (h : ∀ r ∈ m, order.compare r.key key = .gt) :
    file order key v (l ++ m) = file order key v l ++ m := by
  induction l with
  | nil =>
    cases m with
    | nil => rfl
    | cons x m => simp only [List.nil_append, file, h x List.mem_cons_self, List.cons_append]
  | cons x l ih =>
    simp only [List.cons_append, file]
    cases order.compare x.key key <;> simp [ih]

theorem length_file_le (key : Bytes) (v : Version) (l : List Record) :
    (file order key v l).length ≤ l.length + 1 := by
  induction l with
  | nil => exact Nat.le_refl 1
  | cons x l ih =>
    rw [file]
    cases order.compare x.key key <;> simp [ih]

theorem Ascending.file {l : List Record} (h : Ascending order l) (key : Bytes) (v : Version) :
    Ascending order (file order key v l) := by
  induction l with
  | nil => exact List.pairwise_singleton _ _
  | cons x l ih =>
    obtain ⟨hx, hl⟩ := List.pairwise_cons.1 h
    rw [Flat.file]
    split
    next hlt =>
      refine List.pairwise_cons.2 ⟨fun r hr => ?_, ih hl⟩
      rcases key_of_mem_file hr with hk | ⟨y, hy, hk⟩
      · rw [hk]
        exact hlt
      · rw [← hk]
        exact hx y hy
    next => exact List.pairwise_cons.2 ⟨hx, hl⟩
    next hgt =>
      have hlt : order.compare key x.key = .lt := OrientedCmp.lt_of_gt hgt
      refine List.pairwise_cons.2 ⟨fun r hr => ?_, h⟩
      rcases List.mem_cons.1 hr with rfl | hr
      · exact hlt
      · exact TransCmp.lt_trans hlt (hx r hr)

/-- In an ascending list, filing is appending. -/
theorem file_eq_append {l : List Record} (h : Ascending order l) (key : Bytes) (v : Version) :
    file order key v l = append order key v l := by
  induction l with
  | nil => rfl
  | cons x l ih =>
    obtain ⟨hx, hl⟩ := List.pairwise_cons.1 h
    rw [file, append]
    split
    next hlt =>
      -- the head stays below, whichever way the update goes further on
      rw [ih hl, append]
      by_cases hany : (l.any fun r => order.compare r.key key = .eq) = true
      · simp [hany, hlt]
      · simp [hany, hlt]
    next heq =>
      have hrest : ∀ r ∈ l, order.compare r.key key ≠ .eq := by
        intro r hr he
        have hgt : order.compare r.key key = .gt :=
          OrientedCmp.gt_of_lt (TransCmp.lt_of_eq_of_lt (OrientedCmp.eq_symm heq) (hx r hr))
        exact absurd (he.symm.trans hgt) (by decide)
      have hmap : (l.map fun r => if order.compare r.key key = .eq then r.push v else r) = l := by
        conv => rhs; rw [← List.map_id l]
        exact List.map_congr_left fun r hr => if_neg (hrest r hr)
      simp [heq, hmap]
    next hgt =>
      have hall : ∀ r ∈ x :: l, order.compare r.key key = .gt := by
        intro r hr
        rcases List.mem_cons.1 hr with rfl | hr
        · exact hgt
        · exact OrientedCmp.gt_of_lt (TransCmp.lt_trans (OrientedCmp.lt_of_gt hgt) (hx r hr))
      have hany : ¬ ((x :: l).any fun r => order.compare r.key key = .eq) = true := by
        simp only [List.any_eq_true, decide_eq_true_eq, not_exists, not_and]
        intro r hr he
        exact absurd (he.symm.trans (hall r hr)) (by decide)
      have hlow : (x :: l).filter (fun r => order.compare r.key key = .lt) = [] := by
        rw [List.filter_eq_nil_iff]
        intro r hr
        simp [hall r hr]
      have hhigh : (x :: l).filter (fun r => order.compare r.key key = .gt) = x :: l := by
        rw [List.filter_eq_self]
        intro r hr
        simp [hall r hr]
      rw [if_neg hany, hlow, hhigh]
      rfl

theorem Ascending.append {l : List Record} (h : Ascending order l) (key : Bytes) (v : Version) :
    Ascending order (append order key v l) := by
  rw [← file_eq_append h]
  exact h.file key v

theorem ascending_ofAppends (appends : List (Bytes × Version)) :
    Ascending order (ofAppends order appends) := by
  suffices h : ∀ l, Ascending order l →
      Ascending order (appends.foldl (fun l a => Flat.append order a.1 a.2 l) l) from
    h [] List.Pairwise.nil
  induction appends with
  | nil => exact fun l hl => hl
  | cons a appends ih => exact fun l hl => ih _ (hl.append a.1 a.2)

end Keyspan.Flat
