import Keyspan.Proofs.Cursor.Walk

set_option autoImplicit false
set_option relaxedAutoImplicit false

namespace Keyspan

theorem Ledger.resolve_ne_conflict {l : Ledger} {reader : Transaction} {chain : List Version}
    (h : ∀ v ∈ chain, l.stateOf v.writer = .prepared → reader.id? = some v.writer) :
    l.resolve reader chain ≠ .conflict := by
  induction chain with
  | nil => exact nofun
  | cons v older ih =>
    have holder := ih fun u hu => h u (List.mem_cons_of_mem v hu)
    rw [resolve]
    cases hc : l.classify v.writer reader with
    | visible =>
      dsimp only
      cases v.value <;> exact nofun
    | invisible => exact holder
    | foreignPrepared =>
      rw [classify] at hc
      split at hc
      · cases hc
      next hother =>
        split at hc
        next hprepared => exact absurd (h v List.mem_cons_self hprepared) hother
        next => split at hc <;> cases hc
        next => cases hc

namespace Table

/-- Of the updates that are stored, none is by a transaction other than the reader's that is prepared
and not resolved. -/
def Uncontested (t : Table) (reader : Transaction) : Prop :=
  ∀ r ∈ t.store.records, ∀ v ∈ r.versions, t.ledger.stateOf v.writer = .prepared →
    reader.id? = some v.writer

instance (t : Table) (reader : Transaction) : Decidable (t.Uncontested reader) :=
  inferInstanceAs (Decidable (∀ r ∈ t.store.records, ∀ v ∈ r.versions,
    t.ledger.stateOf v.writer = .prepared → reader.id? = some v.writer))

theorem Uncontested.alike {t u : Table} {reader : Transaction} (h : t.Uncontested reader)
    (htu : t.Alike u) : u.Uncontested reader := by
  rw [Uncontested, htu.store.records_eq, htu.ledger]
  exact h

theorem Uncontested.judge_ne_conflict {t : Table} {reader : Transaction}
    (h : t.Uncontested reader) {r : Record} (hr : r ∈ t.store.records) :
    t.judge reader r ≠ .conflict :=
  Ledger.resolve_ne_conflict (h r hr)

end Table

namespace Flat

theorem hunt_barred_or (judge : Record → Outcome) (onward : Bytes → Bool) (l : List Record) :
    (∃ r, hunt judge onward l = .ok (.barred r)) ∨
      hunt judge onward l = hunt judge (fun _ => true) l := by
  induction l with
  | nil => exact Or.inr rfl
  | cons r rest ih =>
    cases hgo : onward r.key with
    | false => exact Or.inl ⟨r, by rw [hunt, if_neg (by simp [hgo])]⟩
    | true =>
      rw [hunt, hunt, if_pos hgo, if_pos rfl]
      cases judge r with
      | value b => exact Or.inr rfl
      | conflict => exact Or.inr rfl
      | hidden => exact ih

private theorem hunt_ne_barred (judge : Record → Outcome) (l : List Record) (r : Record) :
    hunt judge (fun _ => true) l ≠ .ok (.barred r) := by
  intro h
  rcases hunt_cases judge (fun _ => true) l with
    ⟨hhunt, -⟩ | ⟨front, x, rest, -, -, ⟨b, hhunt, -⟩ | ⟨hhunt, -⟩ | ⟨-, hbar⟩⟩
  · rw [hhunt] at h
    cases h
  · rw [hhunt] at h
    cases h
  · rw [hhunt] at h
    cases h
  · cases hbar

theorem not_onward_of_barred {judge : Record → Outcome} {onward : Bytes → Bool} {l : List Record}
    (hclosed : l.Pairwise fun x y => onward x.key = false → onward y.key = false) {r : Record}
    (hbarred : hunt judge onward l = .ok (.barred r)) {h : Held}
    (hheld : hunt judge (fun _ => true) l = .ok (.held h)) : onward h.key = false := by
  rcases hunt_cases judge onward l with
    ⟨hhunt, -⟩ | ⟨front, x, back, hl, hfront, ⟨b, hhunt, -⟩ | ⟨hhunt, -⟩ | ⟨-, hbar⟩⟩
  · rw [hhunt] at hbarred
    cases hbarred
  · rw [hhunt] at hbarred
    cases hbarred
  · rw [hhunt] at hbarred
    cases hbarred
  · have hlast : ∀ y ∈ l, judge y ≠ .hidden → onward y.key = false := by
      intro y hy hno
      rw [hl] at hy hclosed
      rcases List.mem_append.1 hy with hy | hy
      · exact absurd (hfront y hy) hno
      · rcases List.mem_cons.1 hy with rfl | hy
        · exact hbar
        · exact (List.pairwise_cons.1 (List.pairwise_append.1 hclosed).2.1).1 y hy hbar
    rcases hunt_cases judge (fun _ => true) l with
      ⟨hhunt, -⟩ | ⟨front', y, back', hl', -, ⟨b, hhunt, hvalue, -⟩ | ⟨hhunt, -⟩ | ⟨hhunt, -⟩⟩
    · rw [hhunt] at hheld
      cases hheld
    · rw [hhunt] at hheld
      cases hheld
      have hy : y ∈ l := by
        rw [hl']
        exact List.mem_append_right front' List.mem_cons_self
      refine hlast y hy ?_
      rw [hvalue]
      exact nofun
    · rw [hhunt] at hheld
      cases hheld
    · rw [hhunt] at hheld
      cases hheld

theorem onward_of_held {judge : Record → Outcome} {onward : Bytes → Bool} {l : List Record}
    {h : Held} (hheld : hunt judge onward l = .ok (.held h)) : onward h.key = true := by
  rcases hunt_cases judge onward l with
    ⟨hhunt, -⟩ | ⟨front, x, back, -, -, ⟨b, hhunt, -, hgo⟩ | ⟨hhunt, -⟩ | ⟨hhunt, -⟩⟩
  · rw [hhunt] at hheld
    cases hheld
  · rw [hhunt] at hheld
    cases hheld
    exact hgo
  · rw [hhunt] at hheld
    cases hheld
  · rw [hhunt] at hheld
    cases hheld

end Flat

namespace Direction

variable {dir : Direction} {f : Format} {b c : Bounds}

def farSide : Direction → Side
  | forward => .upper
  | backward => .lower

/-- Bounds without the one that a walk runs into. -/
def unclip (dir : Direction) (b : Bounds) : Bounds :=
  b.put dir.farSide none

theorem unclip_eq_of_start (h : dir.start b = dir.start c) : dir.unclip b = dir.unclip c := by
  cases dir with
  | forward =>
    show (⟨b.lower, none⟩ : Bounds) = ⟨c.lower, none⟩
    rw [show b.lower = c.lower from h]
  | backward =>
    show (⟨none, b.upper⟩ : Bounds) = ⟨none, c.upper⟩
    rw [show b.upper = c.upper from h]

private theorem start_unclip (dir : Direction) (b : Bounds) :
    dir.start (dir.unclip b) = dir.start b := by
  cases dir <;> rfl

private theorem reaches_unclip (dir : Direction) (f : Format) (b : Bounds) (key : Bytes) :
    dir.reaches f (dir.unclip b) key = dir.reaches f b key := by
  cases dir <;> rfl

private theorem admits_unclip (dir : Direction) (f : Format) (b : Bounds) (key : Bytes) :
    dir.admits f (dir.unclip b) key = true := by
  cases dir <;> rfl

end Direction

namespace Scan

variable {s : Scan} {dir : Direction}

/-- The same cursor without the bound ahead. -/
def unclipped (s : Scan) (dir : Direction) : Scan :=
  { s with cursor.bounds := dir.unclip s.cursor.bounds }

def sighting (s : Scan) (dir : Direction) : Except Record Catch :=
  Flat.hunt (s.table.judge s.reader) (fun _ => true) (s.table.ahead dir (s.originSeek dir))

theorem originSeek_unclipped (s : Scan) (dir : Direction) :
    (s.unclipped dir).originSeek dir = s.originSeek dir := by
  have hseed : seedSeek dir (dir.unclip s.cursor.bounds) = seedSeek dir s.cursor.bounds := by
    rw [seedSeek, seedSeek, Direction.start_unclip]
  cases hp : s.cursor.position.anchor? with
  | some anchor =>
    rw [originSeek_of_anchor? (s := s.unclipped dir) hp, originSeek_of_anchor? hp]
    show (if dir.reaches s.table.format (dir.unclip s.cursor.bounds) anchor.key = true then _
      else seedSeek dir (dir.unclip s.cursor.bounds)) = _
    rw [Direction.reaches_unclip, hseed]
  | none =>
    rw [originSeek_of_anchor?_none (s := s.unclipped dir) hp, originSeek_of_anchor?_none hp]
    exact hseed

private theorem quarry_unclipped (s : Scan) (dir : Direction) :
    (s.unclipped dir).quarry dir = s.sighting dir := by
  have honward : dir.admits s.table.format (dir.unclip s.cursor.bounds) = fun _ => true :=
    funext (Direction.admits_unclip dir s.table.format s.cursor.bounds)
  show Flat.hunt (s.table.judge s.reader) (dir.admits s.table.format (dir.unclip s.cursor.bounds))
    (s.table.ahead dir ((s.unclipped dir).originSeek dir)) = _
  rw [honward, originSeek_unclipped, sighting]

/-- A step that no bound stops goes as if there were none. -/
theorem result_eq_unclipped (h : s.quarry dir = s.sighting dir) :
    s.result dir = (s.unclipped dir).result dir := by
  rw [result, result, quarry_unclipped, h]
  rfl

theorem place_of_unclipped_none {p : Place}
    (h : (s.unclipped dir).result dir = (.ok none, p)) : p = {} := by
  rw [result, quarry_unclipped] at h
  rcases hq : s.sighting dir with r | (x | r | _)
  · rw [hq] at h
    cases h
  · rw [hq] at h
    dsimp only at h
    split at h <;> cases h
  · exact absurd hq (Flat.hunt_ne_barred _ _ r)
  · rw [hq] at h
    exact (Prod.mk.inj h).2.symm

end Scan

end Keyspan
