import Keyspan.Cursor.Walk
import Keyspan.Proofs.Store.Flat

set_option autoImplicit false
set_option relaxedAutoImplicit false

namespace Keyspan

open Std

namespace Direction

def arrange {α : Type} (dir : Direction) (l : List α) : List α :=
  match dir with
  | forward => l
  | backward => l.reverse

/-- A walk meets `a` before `b`. -/
def Meets (dir : Direction) (order : KeyOrder) (a b : Bytes) : Prop :=
  match dir with
  | forward => order.compare a b = .lt
  | backward => order.compare a b = .gt

instance (dir : Direction) (order : KeyOrder) (a b : Bytes) : Decidable (dir.Meets order a b) :=
  match dir with
  | forward => inferInstanceAs (Decidable (order.compare a b = .lt))
  | backward => inferInstanceAs (Decidable (order.compare a b = .gt))

def Along (dir : Direction) (m : Seek) : Prop :=
  match dir, m with
  | forward, .first | forward, .atOrAfter _ | forward, .after _ => True
  | backward, .last | backward, .atOrBefore _ | backward, .before _ => True
  | _, _ => False

variable {dir : Direction} {order : KeyOrder}

theorem mem_arrange {α : Type} {x : α} {l : List α} : x ∈ dir.arrange l ↔ x ∈ l := by
  cases dir with
  | forward => rfl
  | backward => exact List.mem_reverse

theorem meets_trans {a b c : Bytes} (h : dir.Meets order a b) (k : dir.Meets order b c) :
    dir.Meets order a c := by
  cases dir with
  | forward => exact TransCmp.lt_trans h k
  | backward => exact TransCmp.gt_trans h k

theorem not_meets_self (a : Bytes) : ¬ dir.Meets order a a := by
  intro h
  cases dir with
  | forward => exact absurd (ReflCmp.compare_self.symm.trans h) (by decide)
  | backward => exact absurd (ReflCmp.compare_self.symm.trans h) (by decide)

theorem meets_arrange {α : Type} {key : α → Bytes} {l : List α}
    (h : l.Pairwise fun a b => order.compare (key a) (key b) = .lt) :
    (dir.arrange l).Pairwise fun a b => dir.Meets order (key a) (key b) := by
  cases dir with
  | forward => exact h
  | backward =>
    refine List.pairwise_reverse.2 (List.Pairwise.imp ?_ h)
    exact fun hlt => OrientedCmp.gt_of_lt hlt

theorem along_beyond (dir : Direction) (key : Bytes) : dir.Along (dir.beyond key) := by
  cases dir <;> trivial

theorem along_outermost (dir : Direction) : dir.Along dir.outermost := by
  cases dir <;> trivial

theorem along_ofBound (dir : Direction) (bound : Bound) : dir.Along (dir.ofBound bound) := by
  rw [ofBound]
  split <;> cases dir <;> trivial

theorem accepts_beyond (dir : Direction) (key : Bytes) (r : Record) :
    (dir.beyond key).accepts order r = true ↔ dir.Meets order key r.key := by
  cases dir with
  | forward =>
    show (order.compare r.key key).isGT = true ↔ order.compare key r.key = .lt
    rw [OrientedCmp.isGT_eq_isLT, Ordering.isLT_iff_eq_lt]
  | backward =>
    show (order.compare r.key key).isLT = true ↔ order.compare key r.key = .gt
    rw [Ordering.isLT_iff_eq_lt, OrientedCmp.gt_iff_lt]

theorem accepts_of_meets {m : Seek} (hm : dir.Along m) {a b : Record}
    (h : dir.Meets order a.key b.key) (ha : m.accepts order a = true) :
    m.accepts order b = true := by
  cases dir with
  | forward =>
    have hlt : order.compare a.key b.key = .lt := h
    cases m with
    | first => rfl
    | atOrAfter key =>
      have hgt : order.compare b.key key = .gt :=
        TransCmp.gt_of_gt_of_isGE (OrientedCmp.gt_of_lt hlt) ha
      simp [Seek.accepts, hgt]
    | after key =>
      have hak : order.compare a.key key = .gt := by simpa [Seek.accepts] using ha
      simp [Seek.accepts, TransCmp.gt_trans (OrientedCmp.gt_of_lt hlt) hak]
    | _ => cases hm
  | backward =>
    have hgt : order.compare a.key b.key = .gt := h
    have hlt : order.compare b.key a.key = .lt := OrientedCmp.lt_of_gt hgt
    cases m with
    | last => rfl
    | atOrBefore key => simp [Seek.accepts, TransCmp.lt_of_lt_of_isLE hlt ha]
    | before key =>
      have hak : order.compare a.key key = .lt := by simpa [Seek.accepts] using ha
      simp [Seek.accepts, TransCmp.lt_trans hlt hak]
    | _ => cases hm

end Direction

namespace Flat

variable {order : KeyOrder} {dir : Direction}

def ahead (order : KeyOrder) (dir : Direction) (m : Seek) (l : List Record) : List Record :=
  (dir.arrange l).filter (m.accepts order)

theorem mem_ahead {m : Seek} {l : List Record} {r : Record} :
    r ∈ ahead order dir m l ↔ r ∈ l ∧ m.accepts order r = true := by
  rw [ahead, List.mem_filter, Direction.mem_arrange]

theorem meets_ahead {l : List Record} (h : Ascending order l) (m : Seek) :
    (ahead order dir m l).Pairwise fun a b => dir.Meets order a.key b.key :=
  (Direction.meets_arrange h).filter _

/-- A seek picks the first record ahead of it. -/
theorem pick_eq_head? {m : Seek} (hm : dir.Along m) (l : List Record) :
    pick order l m = (ahead order dir m l).head? := by
  have hfind : ∀ l : List Record, ∀ p : Record → Bool, (∀ r, p r = m.accepts order r) →
      l.find? p = (l.filter (m.accepts order)).head? := by
    intro l p hp
    rw [List.head?_filter]
    congr 1
    funext r
    exact hp r
  cases dir with
  | forward =>
    cases m with
    | first =>
      show l.head? = (l.filter fun _ => true).head?
      rw [List.filter_eq_self.2 fun _ _ => rfl]
    | atOrAfter key =>
      refine hfind l _ fun r => ?_
      simp only [Seek.accepts]
      cases order.compare r.key key <;> rfl
    | after key =>
      refine hfind l _ fun r => ?_
      simp only [Seek.accepts]
      cases order.compare r.key key <;> rfl
    | _ => cases hm
  | backward =>
    cases m with
    | last =>
      show l.getLast? = (l.reverse.filter fun _ => true).head?
      rw [List.filter_eq_self.2 fun _ _ => rfl, List.head?_reverse]
    | atOrBefore key =>
      refine hfind l.reverse _ fun r => ?_
      simp only [Seek.accepts]
      cases order.compare r.key key <;> rfl
    | before key =>
      refine hfind l.reverse _ fun r => ?_
      simp only [Seek.accepts]
      cases order.compare r.key key <;> rfl
    | _ => cases hm

theorem ahead_beyond {l : List Record} (h : Ascending order l) {m : Seek} (hm : dir.Along m)
    {r : Record} {rest : List Record} (hahead : ahead order dir m l = r :: rest) :
    ahead order dir (dir.beyond r.key) l = rest := by
  have hpairs := @Direction.meets_arrange dir order _ Record.key l h
  unfold ahead at hahead ⊢
  revert hpairs hahead
  induction dir.arrange l with
  | nil => exact fun hnil => absurd hnil nofun
  | cons x xs ih =>
    intro hahead hpairs
    obtain ⟨hx, hxs⟩ := List.pairwise_cons.1 hpairs
    by_cases hacc : m.accepts order x = true
    · -- all that follows is accepted too, and lies beyond
      rw [List.filter_cons_of_pos (p := fun y => m.accepts order y) hacc] at hahead
      obtain ⟨rfl, hrest⟩ := List.cons.inj hahead
      have hself : ¬ (dir.beyond x.key).accepts order x = true := fun he =>
        Direction.not_meets_self x.key ((Direction.accepts_beyond dir x.key x).1 he)
      have hbeyond : ∀ y ∈ xs, (dir.beyond x.key).accepts order y = true := fun y hy =>
        (Direction.accepts_beyond dir x.key y).2 (hx y hy)
      have hall : ∀ y ∈ xs, m.accepts order y = true := fun y hy =>
        Direction.accepts_of_meets hm (hx y hy) hacc
      rw [List.filter_cons_of_neg (p := fun y => (dir.beyond x.key).accepts order y) hself,
        List.filter_eq_self.2 hbeyond, ← hrest, List.filter_eq_self.2 hall]
    · rw [List.filter_cons_of_neg (p := fun y => m.accepts order y) hacc] at hahead
      have hr : r ∈ xs := by
        have hmem : r ∈ xs.filter (m.accepts order) := by
          rw [hahead]
          exact List.mem_cons_self
        exact (List.mem_filter.1 hmem).1
      have hbefore : ¬ (dir.beyond r.key).accepts order x = true := fun he =>
        Direction.not_meets_self x.key
          (Direction.meets_trans (hx r hr) ((Direction.accepts_beyond dir r.key x).1 he))
      rw [List.filter_cons_of_neg (p := fun y => (dir.beyond r.key).accepts order y) hbefore]
      exact ih hahead hxs

/-- A hunt over the records ahead: it goes over what is hidden, as long as it may, to the first value
or the first conflict. -/
def hunt (judge : Record → Outcome) (onward : Bytes → Bool) : List Record → Except Record Catch
  | [] => .ok .nothing
  | r :: rest =>
    if onward r.key then
      match judge r with
      | .value b => .ok (.held ⟨r.key, b⟩)
      | .hidden => hunt judge onward rest
      | .conflict => .error r
    else .ok (.barred r)

variable {judge : Record → Outcome} {onward : Bytes → Bool} {l : List Record}

/-- The record at which a hunt ends, if there is one, follows only hidden ones. -/
theorem hunt_cases (judge : Record → Outcome) (onward : Bytes → Bool) (l : List Record) :
    (hunt judge onward l = .ok .nothing ∧ ∀ x ∈ l, judge x = .hidden) ∨
      ∃ front r rest, l = front ++ r :: rest ∧ (∀ x ∈ front, judge x = .hidden) ∧
        ((∃ b, hunt judge onward l = .ok (.held ⟨r.key, b⟩) ∧ judge r = .value b ∧
            onward r.key = true) ∨
          (hunt judge onward l = .error r ∧ judge r = .conflict) ∨
          (hunt judge onward l = .ok (.barred r) ∧ onward r.key = false)) := by
  induction l with
  | nil => exact Or.inl ⟨rfl, nofun⟩
  | cons r rest ih =>
    cases hgo : onward r.key with
    | false =>
      refine Or.inr ⟨[], r, rest, rfl, nofun, Or.inr (Or.inr ⟨?_, hgo⟩)⟩
      rw [hunt, if_neg (by simp [hgo])]
    | true =>
      cases hj : judge r with
      | value b =>
        refine Or.inr ⟨[], r, rest, rfl, nofun, Or.inl ⟨b, ?_, hj, hgo⟩⟩
        rw [hunt, if_pos hgo, hj]
      | conflict =>
        refine Or.inr ⟨[], r, rest, rfl, nofun, Or.inr (Or.inl ⟨?_, hj⟩)⟩
        rw [hunt, if_pos hgo, hj]
      | hidden =>
        have hskip : hunt judge onward (r :: rest) = hunt judge onward rest := by
          rw [hunt, if_pos hgo, hj]
        have hhidden : ∀ m : List Record, (∀ x ∈ m, judge x = .hidden) →
            ∀ x ∈ r :: m, judge x = .hidden := by
          intro m hm x hx
          rcases List.mem_cons.1 hx with rfl | hx
          · exact hj
          · exact hm x hx
        rw [hskip]
        rcases ih with ⟨hnothing, hall⟩ | ⟨front, x, back, rfl, hfront, hend⟩
        · exact Or.inl ⟨hnothing, hhidden rest hall⟩
        · exact Or.inr ⟨r :: front, x, back, rfl, hhidden front hfront, hend⟩

end Flat

end Keyspan
