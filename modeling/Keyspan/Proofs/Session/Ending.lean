import Keyspan.Proofs.Compression.Literal
import Keyspan.Proofs.Cursor.Ending
import Keyspan.Proofs.Session.Sound
import Keyspan.Proofs.Store.Retry

/-!
That seeks, steps and searches come to an end, after no more work than there is reason for.

Wherever pages are, a seek is done after one or two loads of pages that are away. Whatever keys were
appended, a step makes one seek for each record at most and one more, and so does a near search in each
direction.
-/

set_option autoImplicit false
set_option relaxedAutoImplicit false

namespace Keyspan.Session

/-- Whatever calls were made on a store, as long as memory holds what they append, a seek gets through by
looking things up again each time that a page it needs was loaded: only pages that are away are loaded,
one for the ends of the store and for one key and two otherwise, and the reloads grow by as many. Whatever
calls were made in a session, appends of any keys included, the same holds of its store, and every step
and every near search of a cursor comes to what a path comes to that makes seek after seek until one of
them settles it. Each seek but the first is past the record that was handed out before, which lies further
on than those handed out earlier; there is one seek for each record at most and one in each direction; and
no other record is handed out. -/
theorem loops_end :
    (∀ (order : KeyOrder) (paging : Paging) (calls : List StoreCall),
      10 + ((calls.filterMap StoreCall.appended?).map appendWeight).sum < 2 ^ 64 →
      ∀ m, ∃ loads found t, ((Store.empty order paging).after calls).SeekEnds m loads found t) ∧
    ∀ (f : Format) (paging : Paging) (calls : List Call),
      (∀ n < calls.length, ((fresh f paging).after (calls.take n)).table.store.InMemory) →
      let s := (fresh f paging).after calls
      (∀ m, ∃ loads found t, s.table.store.SeekEnds m loads found t) ∧
      ∀ c ∈ s.cursors, (∀ dir, ∃ made r, Scan.StepEnds ⟨c, s.table⟩ dir made r) ∧
        ∃ above below r, Scan.NearEnds ⟨c, s.table⟩ above below r := by
  constructor
  · intro order paging calls room m
    obtain ⟨href, -⟩ := (Store.refines_empty order paging).after_of_room calls room
    exact Store.exists_seekEnds href.valid m
  · intro f paging calls memory s
    have hsound : s.table.Sound f := sound_after (Table.sound_empty f paging) memory
    have hordered : s.table.store.order = .typed s.table.format := by
      rw [hsound.ordered, hsound.format]
    exact ⟨Store.exists_seekEnds hsound.valid, fun c _ =>
      ⟨Scan.exists_stepEnds (s := ⟨c, s.table⟩) hsound.valid,
        Scan.exists_nearEnds (s := ⟨c, s.table⟩) hsound.valid hordered⟩⟩

/-- A removed record, two appends of keys that the format does not know, and a cursor that is to look for
the removed one. -/
def strewn : List Call :=
  [.insert none (.int 10) [1], .insert none (.int 20) [2], .remove none (.int 20),
    .store (.append [200] ⟨1, some [9]⟩), .store (.append [7] ⟨1, some [8]⟩), .openCursor {},
    .cursor 0 (.setKey (.int 20)), .store .evictAll]

theorem loops_end_strewn :
    let paging : Paging := { codec := Snappy.codec, capacity := 0 }
    (∃ loads found t, ((Store.empty .bytewise paging).after
        (Store.scattered ++ [.evictAll])).SeekEnds (.after [1]) loads found t ∧ loads.length = 2) ∧
      let s := (fresh ⟨[.int], by decide⟩ paging).after strewn
      let c : Cursor := { id := 1, options := {}, staged := Key.encode (.int 20) }
      c ∈ s.cursors ∧
        (∃ made r, Scan.StepEnds ⟨c, s.table⟩ .backward made r ∧ Scan.handouts made = 2) ∧
        ∃ above below r, Scan.NearEnds ⟨c, s.table⟩ above below r ∧
          Scan.handouts above + Scan.handouts below = 2 := by
  intro paging
  obtain ⟨hstores, hsessions⟩ := loops_end
  constructor
  · let calls : List StoreCall := Store.scattered ++ [.evictAll]
    obtain ⟨loads, found, t, hends⟩ := hstores .bytewise paging calls (by decide) (.after [1])
    refine ⟨loads, found, t, hends, ?_⟩
    have hreloads : ((Store.empty .bytewise paging).after calls).stats.reloads = 1 := by
      decide +kernel
    have hcounted : (finalState ((Store.seek (.after [1])).run
        ((Store.empty .bytewise paging).after calls))).stats.reloads = 3 := by
      decide +kernel
    rw [hends.run] at hcounted
    have hgrown : t.stats.reloads = 3 := hcounted
    have hsum := hends.reloads
    omega
  · intro s c
    have hmemory : ∀ n < strewn.length,
        ((fresh ⟨[.int], by decide⟩ paging).after (strewn.take n)).table.store.InMemory := by
      decide +kernel
    have hopened : c ∈ s.cursors := by decide +kernel
    obtain ⟨-, hcursors⟩ := hsessions ⟨[.int], by decide⟩ paging strewn hmemory
    obtain ⟨hsteps, above, below, r, hnear⟩ := hcursors c hopened
    obtain ⟨made, q, hstep⟩ := hsteps .backward
    have hstepped : (finalState ((Scan.step .backward).run ⟨c, s.table⟩)).table.store.visited =
        s.table.store.visited + 2 := by
      decide +kernel
    have hneared : (finalState (Scan.searchNear.run ⟨c, s.table⟩)).table.store.visited =
        s.table.store.visited + 2 := by
      decide +kernel
    generalize s.table = t at hstep hnear hstepped hneared
    have hmade : (finalState ((Scan.step .backward).run ⟨c, t⟩)).table.store.visited =
        t.store.visited + Scan.handouts made := hstep.run ▸ hstep.visited
    have hboth : (finalState (Scan.searchNear.run ⟨c, t⟩)).table.store.visited =
        t.store.visited + Scan.handouts above + Scan.handouts below := hnear.run ▸ hnear.visited
    exact ⟨hopened, ⟨made, q, hstep, by omega⟩, above, below, r, hnear, by omega⟩

end Keyspan.Session
