import Keyspan.Proofs.Cursor.Walk

/-!
The record that decides a step.

From where the cursor stands a walk may start with some keys. The first record under one of them that both
bounds admit and that is not hidden from the reader decides what the step comes to. A walk looks at the
bound ahead alone, and it may: keys within the bound behind are all that it can start with.
-/

set_option autoImplicit false
set_option relaxedAutoImplicit false

namespace Keyspan

namespace Flat

variable {judge : Record → Outcome} {onward : Bytes → Bool} {l : List Record}

/-- The first record that a hunt may return and that is not hidden decides it. -/
theorem hunt_of_decided {r : Record}
    (hclosed : l.Pairwise fun x y => onward x.key = false → onward y.key = false)
    (h : (l.filter fun x => onward x.key).find? (fun x => judge x ≠ .hidden) = some r) :
    hunt judge onward l = match judge r with
      | .value b => .ok (.held ⟨r.key, b⟩)
      | _ => .error r := by
  induction l with
  | nil => cases h
  | cons x rest ih =>
    obtain ⟨hx, hrest⟩ := List.pairwise_cons.1 hclosed
    cases hgo : onward x.key with
    | false =>
      have hnone : (x :: rest).filter (fun y => onward y.key) = [] := by
        refine List.filter_eq_nil_iff.2 fun y hy => ?_
        rcases List.mem_cons.1 hy with rfl | hy
        · simp [hgo]
        · simp [hx y hy hgo]
      rw [hnone] at h
      cases h
    | true =>
      rw [List.filter_cons_of_pos (p := fun y : Record => onward y.key) hgo] at h
      rw [hunt, if_pos hgo]
      by_cases hj : judge x = .hidden
      · rw [List.find?_cons_of_neg (by simp [hj])] at h
        rw [hj]
        exact ih hrest h
      · rw [List.find?_cons_of_pos (by simp [hj])] at h
        obtain rfl := Option.some.inj h
        cases hjx : judge x with
        | value b => rfl
        | conflict => rfl
        | hidden => exact absurd hjx hj

theorem hunt_of_undecided
    (h : (l.filter fun x => onward x.key).find? (fun x => judge x ≠ .hidden) = none) :
    (∃ r, hunt judge onward l = .ok (.barred r) ∧ ∃ x ∈ l, onward x.key = false) ∨
      (hunt judge onward l = .ok .nothing ∧ ∀ x ∈ l, onward x.key = true) := by
  induction l with
  | nil => exact Or.inr ⟨rfl, nofun⟩
  | cons x rest ih =>
    cases hgo : onward x.key with
    | false => exact Or.inl ⟨x, by rw [hunt, if_neg (by simp [hgo])], x, List.mem_cons_self, hgo⟩
    | true =>
      rw [List.filter_cons_of_pos (p := fun y : Record => onward y.key) hgo] at h
      have hj : judge x = .hidden := by
        by_contra hno
        rw [List.find?_cons_of_pos (by simp [hno])] at h
        cases h
      rw [List.find?_cons_of_neg (by simp [hj])] at h
      rw [hunt, if_pos hgo, hj]
      rcases ih h with ⟨r, hhunt, y, hy, hout⟩ | ⟨hhunt, hall⟩
      · exact Or.inl ⟨r, hhunt, y, List.mem_cons_of_mem x hy, hout⟩
      · refine Or.inr ⟨hhunt, fun y hy => ?_⟩
        rcases List.mem_cons.1 hy with rfl | hy
        · exact hgo
        · exact hall y hy

end Flat

/-- Whether a walk may start with a key: a cursor on a key that the bound behind admits starts with those
after it, and any other with those that this bound admits. -/
def Cursor.startsWith (c : Cursor) (dir : Direction) (f : Format) (key : Bytes) : Bool :=
  match c.position with
  | .positioned anchor =>
    if dir.reaches f c.bounds anchor.key then dir.Meets (.typed f) anchor.key key
    else dir.reaches f c.bounds key
  | _ => dir.reaches f c.bounds key

namespace Scan

variable {s : Scan} {dir : Direction}

/-- The first record, as the walk meets them, that it may start with, that both bounds admit and that is
not hidden from the reader. -/
def deciding? (s : Scan) (dir : Direction) : Option Record :=
  ((dir.arrange s.table.store.records).filter fun r =>
    s.cursor.startsWith dir s.table.format r.key && s.cursor.bounds.admits s.table.format r.key).find?
      fun r => s.table.judge s.reader r ≠ .hidden

/-- The first record ahead of a seek that the bound ahead admits and that is not hidden from the
reader. -/
def firstAhead? (s : Scan) (dir : Direction) (m : Seek) : Option Record :=
  ((s.table.ahead dir m).filter fun r => dir.admits s.table.format s.cursor.bounds r.key).find?
    fun r => s.table.judge s.reader r ≠ .hidden

theorem accepts_originSeek (s : Scan) (dir : Direction) (r : Record) :
    (s.originSeek dir).accepts (.typed s.table.format) r =
      s.cursor.startsWith dir s.table.format r.key := by
  rw [originSeek, Cursor.startsWith]
  cases s.cursor.position with
  | positioned anchor =>
    dsimp only
    split
    · rw [Bool.eq_iff_iff, decide_eq_true_iff]
      exact Direction.accepts_beyond dir anchor.key r
    · exact accepts_seedSeek dir _ _ r
  | _ => exact accepts_seedSeek dir _ _ r

theorem reaches_of_startsWith {key : Bytes}
    (h : s.cursor.startsWith dir s.table.format key = true) :
    dir.reaches s.table.format s.cursor.bounds key = true := by
  rw [Cursor.startsWith] at h
  split at h
  · split at h
    next hin => exact Direction.reaches_of_meets (of_decide_eq_true h) hin
    next => exact h
  · exact h

section Ahead

variable (hordered : s.table.store.order = .typed s.table.format)
include hordered

theorem mem_ahead_iff {r : Record} : r ∈ s.table.ahead dir (s.originSeek dir) ↔
    r ∈ s.table.store.records ∧ s.cursor.startsWith dir s.table.format r.key = true := by
  rw [Table.ahead, Flat.mem_ahead, hordered, accepts_originSeek]

/-- Of the records ahead of a seek that accepts those with `p` within the bound behind, the ones within
the bound ahead are those with `p` that both bounds admit. -/
theorem filter_ahead {m : Seek} {p : Record → Bool}
    (hm : ∀ r, m.accepts (.typed s.table.format) r =
      (p r && dir.reaches s.table.format s.cursor.bounds r.key)) :
    (s.table.ahead dir m).filter (fun r => dir.admits s.table.format s.cursor.bounds r.key) =
      (dir.arrange s.table.store.records).filter fun r =>
        p r && s.cursor.bounds.admits s.table.format r.key := by
  rw [Table.ahead, Flat.ahead, hordered, List.filter_filter]
  congr 1
  funext r
  rw [hm, Direction.admits_eq dir, Bool.and_left_comm]

theorem deciding?_eq : s.deciding? dir = s.firstAhead? dir (s.originSeek dir) := by
  rw [deciding?, firstAhead?, filter_ahead hordered fun r => ?_]
  rw [accepts_originSeek]
  cases hstart : s.cursor.startsWith dir s.table.format r.key with
  | false => rfl
  | true => exact (reaches_of_startsWith hstart).symm

/-- What a step comes to is decided by that record, or else by whether there is one that the walk may
start with and the bound ahead does not admit. -/
theorem result_cases_deciding (hs : s.table.store.Valid)
    (hunpacks : ∀ r ∈ s.table.store.records, ∃ key, s.table.format.unpackKey r.key = .ok key) :
    (∃ r key b, s.deciding? dir = some r ∧ s.table.judge s.reader r = .value b ∧
      s.table.format.unpackKey r.key = .ok key ∧
      s.result dir = (.ok (some ⟨key, b⟩), .on ⟨r.key, b⟩)) ∨
    (∃ r, s.deciding? dir = some r ∧ s.table.judge s.reader r = .conflict ∧
      s.result dir = (.error (s.conflict r.key), s.cursor.place)) ∨
    (s.deciding? dir = none ∧
      (∃ r ∈ s.table.store.records, s.cursor.startsWith dir s.table.format r.key = true ∧
        dir.admits s.table.format s.cursor.bounds r.key = false) ∧
      s.result dir = (.ok none, s.cursor.place.stop dir)) ∨
    (s.deciding? dir = none ∧
      (∀ r ∈ s.table.store.records, s.cursor.startsWith dir s.table.format r.key = true →
        dir.admits s.table.format s.cursor.bounds r.key = true) ∧
      s.result dir = (.ok none, {})) := by
  have hmeets := meets_ahead hs hordered dir (s.originSeek dir)
  cases hdecides : s.deciding? dir with
  | some r =>
    rw [deciding?_eq hordered, firstAhead?] at hdecides
    have hmem := (List.mem_filter.1 (List.mem_of_find?_eq_some hdecides)).1
    have hno := List.find?_some hdecides
    have hhunt := Flat.hunt_of_decided
      (hmeets.imp fun hxy hx => Direction.not_admits_of_meets hxy hx) hdecides
    cases hj : s.table.judge s.reader r with
    | value b =>
      rw [hj] at hhunt
      obtain ⟨key, hkey⟩ := hunpacks r (Flat.mem_ahead.1 hmem).1
      refine Or.inl ⟨r, key, b, rfl, hj, hkey, ?_⟩
      rw [result, quarry, hhunt]
      simp only [hkey]
    | conflict =>
      rw [hj] at hhunt
      refine Or.inr (Or.inl ⟨r, rfl, hj, ?_⟩)
      rw [result, quarry, hhunt]
    | hidden =>
      rw [hj] at hno
      cases hno
  | none =>
    rw [deciding?_eq hordered, firstAhead?] at hdecides
    rcases Flat.hunt_of_undecided hdecides with ⟨x, hhunt, r, hr, hout⟩ | ⟨hhunt, hall⟩
    · obtain ⟨hstored, hstart⟩ := (mem_ahead_iff hordered).1 hr
      refine Or.inr (Or.inr (Or.inl ⟨rfl, ⟨r, hstored, hstart, hout⟩, ?_⟩))
      rw [result, quarry, hhunt]
    · refine Or.inr (Or.inr (Or.inr ⟨rfl, fun r hr hstart => ?_, ?_⟩))
      · exact hall r ((mem_ahead_iff hordered).2 ⟨hr, hstart⟩)
      · rw [result, quarry, hhunt]

end Ahead

end Scan

end Keyspan
