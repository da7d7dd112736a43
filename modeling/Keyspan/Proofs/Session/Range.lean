import Keyspan.Proofs.Bound.Interval
import Keyspan.Proofs.Session.Autocommit

set_option autoImplicit false
set_option relaxedAutoImplicit false

namespace Keyspan

open Std

/-- The ends of a range of typed keys, each set or not, inclusive or not. -/
abbrev KeyRange := Side → Option (Key × Bool)

namespace KeyRange

/-- Whether a key is within both ends. -/
def admits (range : KeyRange) (key : Key) : Bool :=
  (range .lower).all (fun b => b.1.compare key = .lt ∨ (b.2 ∧ b.1.compare key = .eq)) &&
    (range .upper).all fun b => key.compare b.1 = .lt ∨ (b.2 ∧ key.compare b.1 = .eq)

/-- The ends pass the check, and the lower one is not above the upper one. -/
structure Valid (range : KeyRange) (f : Format) : Prop where
  checked : ∀ side b, range side = some b → f.check b.1 = .ok ()
  ordered : ∀ a b, range .lower = some a → range .upper = some b → a.1.compare b.1 ≠ .gt

def bounds (range : KeyRange) : Bounds where
  lower := (range .lower).map fun b => ⟨b.1.encode, b.2⟩
  upper := (range .upper).map fun b => ⟨b.1.encode, b.2⟩

def onSides (range : KeyRange) (sides : List Side) : KeyRange := fun side =>
  if side ∈ sides then range side else none

def call? (range : KeyRange) (side : Side) : Option Call :=
  (range side).map fun b => .cursor 0 (.setBound side b.1 b.2)

variable {range : KeyRange} {f : Format}

/-- The packed bounds admit the packed keys in range. -/
theorem admits_bounds (hvalid : range.Valid f)
    (hsize : ∀ side b, range side = some b → b.1.encode.length < 2 ^ 64) {key : Key}
    (hkey : f.check key = .ok ()) (hkeysize : key.encode.length < 2 ^ 64) :
    range.bounds.admits f key.encode = range.admits key := by
  have hcompare : ∀ side b, range side = some b →
      (KeyOrder.typed f).compare key.encode b.1.encode = key.compare b.1 := fun side b hb =>
    Format.compare_encode hkey (hvalid.checked side b hb) hkeysize (hsize side b hb)
  have hlower : range.bounds.admitsBackward f key.encode =
      (range .lower).all fun b => b.1.compare key = .lt ∨ (b.2 ∧ b.1.compare key = .eq) := by
    rw [Bounds.admitsBackward, bounds]
    cases hb : range .lower with
    | none => rfl
    | some b =>
      have hswap : b.1.compare key = (key.compare b.1).swap := OrientedCmp.eq_swap
      simp only [Option.map_some, hcompare _ b hb, Option.all_some, hswap]
      cases key.compare b.1 <;> simp
  have hupper : range.bounds.admitsForward f key.encode =
      (range .upper).all fun b => key.compare b.1 = .lt ∨ (b.2 ∧ key.compare b.1 = .eq) := by
    rw [Bounds.admitsForward, bounds]
    cases hb : range .upper with
    | none => rfl
    | some b =>
      simp only [Option.map_some, hcompare _ b hb, Option.all_some]
      cases key.compare b.1 <;> simp
  rw [Bounds.admits, hlower, hupper, Bool.and_comm]
  rfl

private theorem eq_some_of_onSides {sides : List Side} {side : Side} {b : Key × Bool}
    (h : range.onSides sides side = some b) : range side = some b := by
  unfold onSides at h
  split at h
  · exact h
  · cases h

private theorem compare_ends_ne_gt (hvalid : range.Valid f)
    (hsize : ∀ side b, range side = some b → b.1.encode.length < 2 ^ 64) {a b : Key × Bool}
    (ha : range .lower = some a) (hb : range .upper = some b) :
    (KeyOrder.typed f).compare a.1.encode b.1.encode ≠ .gt := by
  rw [Format.compare_encode (hvalid.checked _ a ha) (hvalid.checked _ b hb) (hsize _ a ha)
    (hsize _ b hb)]
  exact hvalid.ordered a b ha hb

theorem set_bounds (hvalid : range.Valid f)
    (hsize : ∀ side b, range side = some b → b.1.encode.length < 2 ^ 64) {side : Side}
    {b : Key × Bool} (hb : range side = some b) (sides : List Side) :
    (Bounds.set f side b.1 b.2).run (range.onSides sides).bounds =
      .ok () (range.onSides (side :: sides)).bounds := by
  refine Bounds.set_run_eq_ok_iff.2
    ⟨hvalid.checked side b hb, Bounds.setPacked_run_eq_ok_iff.2 ⟨?_, ?_⟩⟩
  · intro lo hi hpair
    cases side with
    | lower =>
      obtain ⟨u, hu, hends⟩ := Option.map_eq_some_iff.1 hpair
      obtain ⟨upper, hupper, rfl⟩ := Option.map_eq_some_iff.1 hu
      cases hends
      exact compare_ends_ne_gt hvalid hsize hb (eq_some_of_onSides hupper)
    | upper =>
      obtain ⟨l, hl, hends⟩ := Option.map_eq_some_iff.1 hpair
      obtain ⟨lower, hlower, rfl⟩ := Option.map_eq_some_iff.1 hl
      cases hends
      exact compare_ends_ne_gt hvalid hsize (eq_some_of_onSides hlower) hb
  · cases side <;> simp [bounds, onSides, Bounds.put, hb]

end KeyRange

namespace Session

variable {s : Session} {f : Format} {log : Log}

theorem run_setBound {c : Cursor} (hc : s.cursors = [c]) (hstart : c.position = .unpositioned)
    (hformat : s.table.format = f) {side : Side} {key : Key} {inclusive : Bool} {b : Bounds}
    (hset : (Bounds.set f side key inclusive).run c.bounds = .ok () b) :
    (s.run (.cursor 0 (.setBound side key inclusive))).2 =
      { s with cursors := [{ c with bounds := b }] } := by
  have hreopen : c.withBounds b = { c with bounds := b } := by
    rw [Cursor.withBounds, Place.reopen, show c.place.position = .unpositioned from hstart]
  have hget : s.cursors[0]? = some c := by
    rw [hc]
    rfl
  have hcall : CursorCall.run ⟨c, s.table⟩ (.setBound side key inclusive) =
      (.done, ⟨{ c with bounds := b }, s.table⟩) := by
    subst hformat
    show CursorCall.change ⟨c, s.table⟩
      (Cursor.rebound (Bounds.set s.table.format side key inclusive)) = _
    rw [CursorCall.change_rebound, hset]
    dsimp only
    rw [hreopen]
  show (s.onCursor 0 (.setBound side key inclusive)).2 = _
  simp only [onCursor, hget, hcall]
  rw [hc, List.set_cons_zero]

/-- Setting the ends of a range in any order, with evictions anywhere between them. -/
theorem Follows.limits {range : KeyRange} (hvalid : range.Valid f)
    (hsize : ∀ side b, range side = some b → b.1.encode.length < 2 ^ 64) {c : Cursor}
    (hstart : c.position = .unpositioned) {sides before : List Side} {calls : List Call}
    (h : s.Follows f log)
    (hc : s.cursors = [{ c with bounds := (range.onSides before).bounds }])
    (hcalls : calls.filter (fun call => !call.isEviction) = sides.filterMap range.call?)
    (hroom : log.weight + Call.footprints calls < 2 ^ 64) :
    (s.after calls).Follows f log ∧ ∃ all : List Side,
      (∀ side, side ∈ sides ∨ side ∈ before → range side = none ∨ side ∈ all) ∧
        (s.after calls).cursors = [{ c with bounds := (range.onSides all).bounds }] := by
  induction calls generalizing s sides before with
  | nil =>
    refine ⟨h, before, fun side hside => ?_, hc⟩
    refine hside.imp_left fun hmem => ?_
    have hnone := List.filterMap_eq_nil_iff.1 hcalls.symm side hmem
    exact Option.map_eq_none_iff.1 hnone
  | cons call calls ih =>
    rw [Call.footprints_cons] at hroom
    show ((s.run call).2.after calls).Follows f log ∧ ∃ all : List Side, _ ∧
      ((s.run call).2.after calls).cursors = _
    by_cases hcall : call.isEviction = true
    · obtain ⟨hevents, hcursors, hraw⟩ := run_eviction hcall s
      have hstep := h.run hraw (by omega)
      rw [hevents] at hstep
      rw [List.filter_cons_of_neg (by simp [hcall])] at hcalls
      exact ih hstep (hcursors.trans hc) hcalls (by omega)
    · rw [List.filter_cons_of_pos (by simp [hcall])] at hcalls
      obtain ⟨front, side, back, rfl, hfront, hside, hback⟩ :=
        List.filterMap_eq_cons_iff.1 hcalls.symm
      obtain ⟨b, hb, rfl⟩ := Option.map_eq_some_iff.1 hside
      have hrun := run_setBound hc hstart h.table.format (KeyRange.set_bounds hvalid hsize hb before)
      have hstep : (s.run (.cursor 0 (.setBound side b.1 b.2))).2.Follows f log :=
        h.run rfl (by omega)
      have hc' : (s.run (.cursor 0 (.setBound side b.1 b.2))).2.cursors =
          [{ c with bounds := (range.onSides (side :: before)).bounds }] := by rw [hrun]
      obtain ⟨hrest, all, hall, hcursors⟩ := ih hstep hc' hback.symm (by omega)
      refine ⟨hrest, all, fun side' hside' => ?_, hcursors⟩
      rcases hside' with hmem | hmem
      · rcases List.mem_append.1 hmem with hmem | hmem
        · exact Or.inl (Option.map_eq_none_iff.1 (hfront side' hmem))
        · rcases List.mem_cons.1 hmem with rfl | hmem
          · exact hall side' (Or.inr List.mem_cons_self)
          · exact hall side' (Or.inl hmem)
      · exact hall side' (Or.inr (List.mem_cons_of_mem side hmem))

end Session

end Keyspan
