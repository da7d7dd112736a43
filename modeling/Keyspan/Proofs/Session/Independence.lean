import Keyspan.Proofs.Compression.Literal
import Keyspan.Proofs.Session.Peers
import Keyspan.Proofs.Session.Sound

/-!
Cursors do not disturb each other.

A call on one cursor moves pages and counts, and changes that cursor. None of that tells on any other
cursor, on the transactions or on what is stored, so the call might as well not have been made.
-/

set_option autoImplicit false
set_option relaxedAutoImplicit false

namespace Keyspan.Session

/-- Leaving out all calls on some of the cursors, after any calls at all, changes no reply to the calls
that remain unless it tells of pages or counters. The cursors that stay end on the same places with the
same bounds and staged keys, with the same transactions and the same numbers handed out, over the same
records. Memory has to hold the payload of every page, as it came to be with all calls made; nothing else
is asked of the cursors or of the calls. -/
theorem cursors_independent (f : Format) (paging : Paging) (past calls : List Call)
    (stays : Nat → Bool)
    (memory : ∀ n < past.length,
      ((fresh f paging).after (past.take n)).table.store.InMemory)
    (memory' : ∀ n < calls.length,
      (((fresh f paging).after past).after (calls.take n)).table.store.InMemory) :
    let s := (fresh f paging).after past
    let remaining := calls.filter (Call.isWithin stays)
    let full := s.after calls
    let part := s.after remaining
    s.repliesTo (fun call => !call.isReport) remaining =
        s.repliesTo (fun call => call.isWithin stays && !call.isReport) calls ∧
      (∀ i, stays i = true → part.cursors[i]? = full.cursors[i]?) ∧
      part.cursors.length = full.cursors.length ∧ part.txns = full.txns ∧
      part.table.ledger = full.table.ledger ∧ part.table.nextCursor = full.table.nextCursor ∧
      part.table.store.records = full.table.store.records ∧ full.table.Alike part.table := by
  intro s remaining full part
  have hsound : s.table.Sound f := sound_after (Table.sound_empty f paging) memory
  have hstart : s.Peers (fun i => stays i = true) s := .refl hsound.valid
  obtain ⟨hreplies, hend⟩ := hstart.runs memory'
  exact ⟨hreplies, hend.cursors, hend.opened, hend.txns, hend.table.alike.ledger,
    hend.table.nextCursor, hend.table.alike.store.records_eq, hend.table.alike⟩

def neighbours : List Call :=
  [.insert none (.int 1) [10], .insert none (.int 3) [30], .openCursor {},
    .openCursor { releaseEvict := true }]

/-- The first one walks while the second one searches under bounds, and keys are written, one of them in
a transaction that is prepared before it is met. -/
def beside : List Call :=
  [.cursor 0 .next, .cursor 1 (.setBound .lower (.int 2) true), .cursor 1 .next, .txn (.begin false),
    .cursor 1 (.setKey (.int 5)), .insert (some 0) (.int 2) [20], .cursor 1 .searchNear,
    .setTxn 1 (some 0), .cursor 1 .next, .txn (.move 0 .prepared), .cursor 0 .next, .cursor 1 .prev,
    .store .evictAll, .insert none (.int 5) [50], .cursor 0 (.setBound .lower (.int 3) true),
    .cursor 0 .next, .closeCursor 1, .cursor 0 .next, .txn .tracked]

theorem cursors_independent_beside :
    let s := (fresh ⟨[.int], by decide⟩ { codec := Snappy.codec, capacity := 2 }).after neighbours
    let full := s.after beside
    let part := s.after (beside.filter (Call.isWithin (· == 0)))
    (beside.filter (Call.isWithin (· == 0))).length + 8 = beside.length ∧
      part.cursors[0]? = full.cursors[0]? ∧ part.table.store.records = full.table.store.records ∧
      part.table.ledger.tracked = full.table.ledger.tracked ∧
      part.table.stats ≠ full.table.stats := by
  obtain ⟨-, hcursors, -, -, hledger, -, hrecords, -⟩ :=
    cursors_independent ⟨[.int], by decide⟩ { codec := Snappy.codec, capacity := 2 } neighbours beside
      (· == 0)
      (by decide +kernel) (by decide +kernel)
  exact ⟨by decide +kernel, hcursors 0 rfl, hrecords, congrArg Ledger.tracked hledger,
    by decide +kernel⟩

end Keyspan.Session
