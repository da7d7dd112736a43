import Keyspan.Proofs.Cursor.Parallel
import Keyspan.Proofs.Table.Twins

set_option autoImplicit false
set_option relaxedAutoImplicit false

namespace Keyspan

/-- What a table counts and hands out, but for where its pages are. -/
def Table.tallies (t : Table) : ScanStats × Nat × Nat :=
  (t.scans, t.nextCursor, t.store.visited)

theorem Table.Twins.move {t u v : Table} (h : t.Twins u) (htv : t.Alike v) (hv : v.store.Valid)
    (htallies : v.tallies = t.tallies) : v.Twins u := by
  obtain ⟨hscans, hrest⟩ := Prod.ext_iff.1 htallies
  obtain ⟨hcursor, hvisited⟩ := Prod.ext_iff.1 hrest
  exact ⟨h.format.trans htv.format.symm, h.ledger.trans htv.ledger.symm, h.scans.trans hscans.symm,
    h.nextCursor.trans hcursor.symm, h.store.move htv.store hv hvisited⟩

private theorem Table.Twins.level {t u : Table} (h : t.Twins u) : t.Level u :=
  ⟨h.format, h.ledger, h.store.order, h.store.records, h.store.left, h.store.right⟩

namespace Scan

/-- Scans that differ at most in how their tables page records, and in whether their cursor gives up
pages. Pages that are given up have to fit. -/
inductive Twins (b b' : Bool) : Scan → Scan → Prop
  | mk (c : Cursor) {t u : Table} (tables : t.Twins u) (left : b = true → t.store.Fits)
      (right : b' = true → u.store.Fits) : Twins b b' ⟨c.releasing b, t⟩ ⟨c.releasing b', u⟩

variable {b b' : Bool} {s t : Scan}

theorem Twins.tables (h : Twins b b' s t) : s.table.Twins t.table := by
  cases h with
  | mk c tables left right => exact tables

theorem Twins.cursor_eq (h : Twins b b' s t) :
    t.cursor.releasing false = s.cursor.releasing false := by
  cases h
  rfl

private theorem agree_count (f : ScanStats → ScanStats) : Agree (Twins b b') (count f) (count f) := by
  rintro _ _ ⟨c, tables, left, right⟩
  refine .ok (.mk c ?_ left right)
  exact ⟨tables.format, tables.ledger, congrArg f tables.scans, tables.nextCursor, tables.store⟩

theorem agree_seek (m : Seek) :
    Agree (Twins b b') (onStore (Store.seek m)) (onStore (Store.seek m)) := by
  rintro _ _ ⟨c, tables, left, right⟩
  obtain ⟨u, v, hu, hv, huv, hsu, htv⟩ := tables.store.seek m
  rw [onStore_run hu, onStore_run hv]
  exact .ok (.mk c (tables.setStore huv) (fun h => hsu.fits (left h)) fun h => htv.fits (right h))

private theorem keeps_tallies {α : Type} {call : StoreM α} (h : Keeps Store.visited call) :
    Keeps (fun s : Scan => s.table.tallies) (onStore call) := by
  intro s
  have hvisited : (finalState (call s.table.store)).visited = s.table.store.visited :=
    h s.table.store
  show (finalState (onStore call s)).table.tallies = _
  simp only [onStore, Table.onStore, EStateM.run]
  cases hrun : call s.table.store with
  | ok x u =>
    rw [hrun] at hvisited
    exact congrArg (fun n => (s.table.scans, s.table.nextCursor, n)) hvisited
  | error e u =>
    rw [hrun] at hvisited
    exact congrArg (fun n => (s.table.scans, s.table.nextCursor, n)) hvisited

theorem keeps_land (h : Held) : Keeps (fun s : Scan => s.table.tallies) (land h) := by
  refine Keeps.get.bind fun s => ?_
  split
  · exact .throw _
  · split
    · have hrelease := (Keeps.compositional Store.visited).release Store.keeps_evictPage h.key
      exact (keeps_tallies hrelease).bind fun _ _ => rfl
    · exact fun _ => rfl

theorem agree_land (x : Held) : Agree (Twins b b') (land x) (land x) := by
  intro s t h
  have hs := keeps_land x s
  have ht := keeps_land x t
  obtain @⟨c, t, u, tables, left, right⟩ := h
  cases hkey : t.format.unpackKey x.key with
  | error e =>
    have hkey' : u.format.unpackKey x.key = .error e := by rw [tables.format, hkey]
    simp only [land, EStateM.run_bind, EStateM.run_get, hkey, hkey']
    exact .error (.mk c tables left right)
  | ok key =>
    have hkey' : u.format.unpackKey x.key = .ok key := by rw [tables.format, hkey]
    obtain ⟨v, htv, hv, hrun⟩ := land_run (s := ⟨c.releasing b, t⟩) tables.store.left left hkey
    obtain ⟨w, huw, hw, hrun'⟩ := land_run (s := ⟨c.releasing b', u⟩) tables.store.right right hkey'
    rw [hrun] at hs ⊢
    rw [hrun'] at ht ⊢
    refine .ok (.mk { c with place := .on x } ?_ (fun h => htv.store.fits (left h)) fun h =>
      huw.store.fits (right h))
    exact ((tables.move htv hv hs).symm.move huw hw ht).symm

theorem parallel_twins (b b' : Bool) : Parallel (Twins b b') where
  cursors := Twins.cursor_eq
  tables h := h.tables.level
  change := by
    rintro _ _ ⟨c, tables, left, right⟩ g hg
    show Twins b b' ⟨g (c.releasing b), _⟩ ⟨g (c.releasing b'), _⟩
    rw [hg, hg]
    exact .mk (g c) tables left right
  count := agree_count
  seek := agree_seek
  land h x _ _ := agree_land x _ _ h

end Scan

end Keyspan
