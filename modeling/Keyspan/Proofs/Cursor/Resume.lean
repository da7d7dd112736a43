import Keyspan.Proofs.Cursor.Amend
import Keyspan.Proofs.Cursor.Clip

/-!
Walks whose far bound changes on the way.

What such a walk has returned is a front part of the entries within the bound that it started from. The
cursor stands on the last of these or was stopped there, and a change of bounds puts it back.
-/

set_option autoImplicit false
set_option relaxedAutoImplicit false

namespace Keyspan

namespace Place

/-- The places of a cursor that has walked up to an entry, or not begun: there, or stopped there by the
bound that the walk runs into. -/
inductive Rests (dir : Direction) : Option Held → Place → Prop
  | before {p : Place} (h : p.position = .unpositioned ∨ p.position = .exhausted dir none) :
      Rests dir none p
  | on (h : Held) : Rests dir (some h) (on h)
  | stopped (h : Held) : Rests dir (some h) ((on h).stop dir)

namespace Rests

variable {dir : Direction} {last : Option Held} {p : Place}

private theorem stop (h : p.Rests dir last) : (p.stop dir).Rests dir last := by
  cases h with
  | before h =>
    refine .before (Or.inr ?_)
    rw [Place.stop]
    rcases h with h | h <;> rw [h] <;> rfl
  | on h => exact .stopped h
  | stopped h => exact .stopped h

private theorem reopen (h : p.Rests dir last) : p.reopen.Rests dir last := by
  cases h with
  | before h =>
    refine .before (Or.inl ?_)
    rw [Place.reopen]
    rcases h with h | h <;> rw [h]
    exact h
  | on h => exact .on h
  | stopped h => exact .on h

theorem reopen_eq_on {x : Held} (h : p.Rests dir (some x)) : p.reopen = .on x := by
  cases h <;> rfl

end Rests

end Place

/-- A walk of `c` has come to `d`: of all the entries within the starting bound it has returned `done`,
and if it is stopped, the bound ahead does not admit the next one. -/
structure Cursor.Midway (c d : Cursor) (f : Format) (dir : Direction) (all done : List Held) :
    Prop where
  txn : d.txn = c.txn
  start : dir.start d.bounds = dir.start c.bounds
  isPrefix : done <+: all
  place : d.place.Rests dir done.getLast?
  stopped : ∀ k, d.position = .exhausted dir k → ∀ x, all[done.length]? = some x →
    dir.admits f d.bounds x.key = false

namespace Cursor.Midway

open Scan

variable {c d : Cursor} {t : Table} {f : Format} {dir : Direction} {all done : List Held}
  {shown : Bytes → Bytes → Prop}

theorem begin (hstart : c.position = .unpositioned) : c.Midway c f dir all [] where
  txn := rfl
  start := rfl
  isPrefix := List.nil_prefix
  place := .before (Or.inl hstart)
  stopped k hk := by
    rw [hstart] at hk
    cases hk

theorem stands (h : c.Midway d f dir all done) (hopen : isExhausted dir ⟨d, t⟩ = false) :
    ∃ rest, all = done ++ rest ∧ Stands d.position all rest := by
  obtain ⟨rest, hrest⟩ := h.isPrefix
  refine ⟨rest, hrest.symm, ?_⟩
  have hplace := h.place
  have hposition : d.position = d.place.position := rfl
  have hstopped : ∀ k, d.place.position ≠ .exhausted dir k := by
    intro k hk
    exact absurd (isExhausted_iff.2 ⟨k, hposition.trans hk⟩) (ne_true_of_eq_false hopen)
  rw [hposition]
  generalize hlast : done.getLast? = last at hplace
  generalize d.place = p at hplace hstopped
  cases hplace with
  | before hp =>
    obtain rfl := List.getLast?_eq_none_iff.1 hlast
    exact Or.inl ⟨hp.resolve_right (hstopped none), hrest⟩
  | on x =>
    obtain ⟨front, rfl⟩ := List.getLast?_eq_some_iff.1 hlast
    refine Or.inr ⟨front, x, rfl, ?_⟩
    rw [← hrest, List.append_assoc]
    rfl
  | stopped x => exact absurd rfl (hstopped _)

theorem land (h : c.Midway d f dir all done) {x : Held} {rest : List Held}
    (hall : all = done ++ x :: rest) :
    c.Midway { d with place := .on x } f dir all (done ++ [x]) where
  txn := h.txn
  start := h.start
  isPrefix := ⟨rest, by rw [hall, List.append_assoc]; rfl⟩
  place := by
    rw [List.getLast?_append]
    exact .on x
  stopped := nofun

theorem stop (h : c.Midway d f dir all done)
    (hbar : ∀ x, all[done.length]? = some x → dir.admits f d.bounds x.key = false) :
    c.Midway { d with place := d.place.stop dir } f dir all done where
  txn := h.txn
  start := h.start
  isPrefix := h.isPrefix
  place := h.place.stop
  stopped _ _ := hbar

theorem amend (h : c.Midway d f dir all done) {change : Amendment}
    (hstart : dir.start (d.amend change).bounds = dir.start c.bounds) :
    c.Midway (d.amend change) f dir all done := by
  cases change with
  | stage key => exact ⟨h.txn, h.start, h.isPrefix, h.place, h.stopped⟩
  | rebound b =>
    exact ⟨h.txn, hstart, h.isPrefix, h.place.reopen,
      fun _ hk => absurd hk (Place.position_ne_of_isStopped d.place.isStopped_reopen)⟩

theorem place_rebound (h : c.Midway d f dir all done) {x : Held} (hx : done.getLast? = some x)
    (b : Bounds) : (d.amend (.rebound b)).place = .on x := by
  have hplace := h.place
  rw [hx] at hplace
  exact hplace.reopen_eq_on

section Step

variable (h : c.Midway d t.format dir all done) (hs : t.store.Valid) (hshows : Shows ⟨c, t⟩ shown)
  (hlists : Lists t.format (dir.unclip c.bounds) shown dir all)
include h

private theorem reader_eq : reader ⟨d, t⟩ = reader ⟨c, t⟩ := by
  rw [reader, reader, h.txn]

theorem shows (hshows : Shows ⟨c, t⟩ shown) : Shows (unclipped ⟨d, t⟩ dir) shown := by
  have hreader : reader (unclipped ⟨d, t⟩ dir) = reader ⟨c, t⟩ := h.reader_eq
  refine ⟨hshows.ordered, ?_, hshows.stored, hshows.unpacks⟩
  rw [hreader]
  exact hshows.judged

private theorem lists (hlists : Lists t.format (dir.unclip c.bounds) shown dir all) :
    Lists t.format (dir.unclip d.bounds) shown dir all := by
  rw [Direction.unclip_eq_of_start h.start]
  exact hlists

include hs hshows hlists

theorem not_admits_of_barred {rest : List Held} (hall : all = done ++ rest)
    (hstands : Stands d.position all rest) {r : Record}
    (hq : quarry ⟨d, t⟩ dir = .ok (.barred r)) :
    ∀ x, all[done.length]? = some x → dir.admits t.format d.bounds x.key = false := by
  intro x hx
  have hmem : x ∈ rest := by
    rw [hall, List.getElem?_append_right (Nat.le_refl _), Nat.sub_self] at hx
    exact List.mem_of_getElem? hx
  rcases Flat.hunt_cases (t.judge (reader ⟨d, t⟩)) (dir.admits t.format d.bounds)
    (t.ahead dir (originSeek ⟨d, t⟩ dir)) with
    ⟨hhunt, -⟩ | ⟨front, y, back, hsplit, hfront,
      ⟨b, hhunt, -⟩ | ⟨hhunt, -⟩ | ⟨-, hbar⟩⟩
  · rw [quarry, hhunt] at hq
    cases hq
  · rw [quarry, hhunt] at hq
    cases hq
  · rw [quarry, hhunt] at hq
    cases hq
  · rw [← originSeek_unclipped] at hsplit
    exact Stands.not_admits_of_barred (s := unclipped ⟨d, t⟩ dir) hstands hs (h.shows hshows)
      (h.lists hlists) hsplit hfront hbar x hmem

/-- A step goes to the next entry, or stays where it is, or is stopped by a bound that does not admit
the next entry. If it leaves the cursor unpositioned, there is no next entry. -/
theorem stepped_cases (hsettled : t.Uncontested (reader ⟨c, t⟩)) :
    (∃ e, stepped ⟨d, t⟩ dir = (.error e, d.place)) ∨
    (∃ x key, t.format.unpackKey x.key = .ok key ∧
      stepped ⟨d, t⟩ dir = (.ok (some ⟨key, x.value⟩), .on x) ∧
      c.Midway { d with place := .on x } t.format dir all (done ++ [x])) ∨
    ((∀ x, all[done.length]? = some x → dir.admits t.format d.bounds x.key = false) ∧
      ∃ p, stepped ⟨d, t⟩ dir = (.ok none, p) ∧
        (p.position ≠ .unpositioned → c.Midway { d with place := p } t.format dir all done)) := by
  rw [stepped]
  cases heldUp ⟨d, t⟩ with
  | true => exact Or.inl ⟨_, rfl⟩
  | false =>
    rw [if_neg Bool.false_ne_true]
    cases hopen : isExhausted dir ⟨d, t⟩ with
    | true =>
      obtain ⟨k, hk⟩ := isExhausted_iff.1 hopen
      exact Or.inr (Or.inr ⟨h.stopped k hk, d.place, rfl, fun _ => h⟩)
    | false =>
      rw [if_neg Bool.false_ne_true]
      obtain ⟨rest, hall, hstands⟩ := h.stands hopen
      rcases Flat.hunt_barred_or (t.judge (reader ⟨d, t⟩)) (dir.admits t.format d.bounds)
        (t.ahead dir (originSeek ⟨d, t⟩ dir)) with ⟨r, hq⟩ | hq
      · have hbar := h.not_admits_of_barred hs hshows hlists hall hstands hq
        have hresult : result ⟨d, t⟩ dir = (.ok none, d.place.stop dir) := by
          rw [result, quarry, hq]
        exact Or.inr (Or.inr ⟨hbar, _, hresult, fun _ => h.stop hbar⟩)
      · -- no bound stops the step, so it goes as if there were none
        rw [result_eq_unclipped (s := ⟨d, t⟩) hq]
        rcases result_cases (s := unclipped ⟨d, t⟩ dir) hs (h.shows hshows) (h.lists hlists)
          hstands with
          ⟨r, hr, hconflict, -⟩ | ⟨x, rest', key, rfl, hkey, hresult, -⟩ | ⟨rfl, p, hresult⟩
        · have hreader : reader (unclipped ⟨d, t⟩ dir) = reader ⟨c, t⟩ := h.reader_eq
          rw [hreader] at hconflict
          exact absurd hconflict (hsettled.judge_ne_conflict hr)
        · exact Or.inr (Or.inl ⟨x, key, hkey, hresult, h.land hall⟩)
        · refine Or.inr (Or.inr ⟨fun x hx => ?_, p, hresult, fun hp => ?_⟩)
          · rw [hall, List.append_nil, List.getElem?_eq_none (Nat.le_refl _)] at hx
            cases hx
          · rw [place_of_unclipped_none hresult] at hp
            exact absurd rfl hp

end Step

end Cursor.Midway

end Keyspan
