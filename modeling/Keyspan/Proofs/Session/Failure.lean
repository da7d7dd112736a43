import Keyspan.Proofs.Compression.Literal
import Keyspan.Proofs.Cursor.Amend
import Keyspan.Proofs.Cursor.Finds
import Keyspan.Proofs.Session.Peers
import Keyspan.Proofs.Session.Sound

/-!
Cursor calls that fail.

A call fails before it changes its cursor, wherever in it the failure comes up. It may have moved pages
and counted by then, so all that can tell it from no call at all are the calls that tell of pages and
counters.
-/

set_option autoImplicit false
set_option relaxedAutoImplicit false

namespace Keyspan

namespace CursorCall

variable {s : Scan} {call : CursorCall}

theorem cursor_of_failed {e : Error} (h : (call.run s).1 = .failed e) :
    (call.run s).2.cursor = s.cursor := by
  have hanswer : ∀ {α : Type} {reply : α → Reply} {find : ScanM α} {found : α → Option Entry}
      {missed : Place → Prop}, (∀ a, (reply a).isFailed = false) → s.Finds found missed find →
      (answer reply find s).1 = .failed e → (answer reply find s).2.cursor = s.cursor := by
    intro α reply find found missed hreply hfind
    rw [Scan.Finds] at hfind
    rw [answer]
    cases hrun : find.run s with
    | ok a u =>
      intro (hfailed : reply a = .failed e)
      have hno := hreply a
      rw [hfailed] at hno
      cases hno
    | error e' u =>
      rw [hrun] at hfind
      exact fun _ => congrArg Prod.fst hfind
  cases call with
  | setTxn txn => cases h
  | setKey key => exact cursor_of_change_failed (Cursor.atomic_setKey _ key) h
  | get => cases h
  | configureBound config =>
    exact cursor_of_change_failed (Cursor.atomic_configureBound _ config) h
  | applyBound request => exact cursor_of_change_failed (Cursor.atomic_applyBound _ request) h
  | setBound side key inclusive =>
    exact cursor_of_change_failed (Cursor.atomic_setBound _ side key inclusive) h
  | clearBound side => cases h
  | reset => cases h
  | next => exact hanswer (fun _ => rfl) (Scan.finds_step s .forward) h
  | prev => exact hanswer (fun _ => rfl) (Scan.finds_step s .backward) h
  | search => exact hanswer (fun _ => rfl) (Scan.finds_search s) h
  | searchNear => exact hanswer (fun _ => rfl) (Scan.finds_searchNear s) h
  | walk dir n => cases h

def positioning? : CursorCall → Option Positioning
  | next => some .next
  | prev => some .prev
  | search => some .search
  | searchNear => some .searchNear
  | _ => none

theorem run_of_heldUp (hheld : s.heldUp = true) {p : Positioning}
    (hcall : call.positioning? = some p) : call.run s = (.failed (.preparedTransaction p), s) := by
  have hanswer : ∀ {α β : Type} (reply : α → Reply) (f : Unit → ScanM α),
      answer reply (Scan.requireUnprepared p >>= f) s = (.failed (.preparedTransaction p), s) := by
    intro α β reply f
    rw [answer, EStateM.run_bind, Scan.requireUnprepared_run, if_pos hheld]
  cases call with
  | next =>
    obtain rfl := Option.some.inj hcall
    exact hanswer (β := Unit) .entry _
  | prev =>
    obtain rfl := Option.some.inj hcall
    exact hanswer (β := Unit) .entry _
  | search =>
    obtain rfl := Option.some.inj hcall
    exact hanswer (β := Unit) .entry _
  | searchNear =>
    obtain rfl := Option.some.inj hcall
    exact hanswer (β := Unit) .near _
  | _ => cases hcall

end CursorCall

namespace Session

variable {s : Session} {i : Nat} {call : CursorCall}

theorem peers_of_failed (hs : s.table.store.Valid) (hm : s.table.store.InMemory) {e : Error}
    (h : (s.run (.cursor i call)).1 = .failed e) :
    s.Peers (fun _ => True) (s.run (.cursor i call)).2 := by
  change (s.onCursor i call).1 = _ at h
  show s.Peers _ (s.onCursor i call).2
  cases hc : s.cursors[i]? with
  | none =>
    rw [onCursor, hc] at h
    cases h
  | some c =>
    rw [onCursor_of_some hc] at h ⊢
    obtain ⟨halike, hvalid⟩ := call.run_alike (s := ⟨c, s.table⟩) hs hm
    have hcursors : s.cursors.set i (call.run ⟨c, s.table⟩).2.cursor = s.cursors := by
      rw [CursorCall.cursor_of_failed h]
      obtain ⟨hi, rfl⟩ := List.getElem?_eq_some_iff.1 hc
      exact List.set_getElem_self hi
    rw [hcursors]
    exact ⟨⟨halike, hs, hvalid, call.nextCursor_run ⟨c, s.table⟩⟩, rfl, rfl, fun _ _ => rfl⟩

/-- A cursor call that fails leaves the cursors, the transactions and the records as they were, and
every later call replies as it would have without the failed one, except where it tells of pages or
counters. While its own transaction is prepared a cursor takes no step and makes no search, whatever
else there is to say about them, and takes bounds as ever. -/
theorem failed_call_leaves_no_trace (f : Format) (paging : Paging) (past : List Call)
    (memory : ∀ n ≤ past.length, ((fresh f paging).after (past.take n)).table.store.InMemory)
    (i : Nat) (call : CursorCall) :
    let s := (fresh f paging).after past
    let t := (s.run (.cursor i call)).2
    (∀ e, (s.run (.cursor i call)).1 = .failed e →
      (t.cursors = s.cursors ∧ t.txns = s.txns ∧ t.table.ledger = s.table.ledger ∧
        t.table.format = s.table.format ∧ t.table.nextCursor = s.table.nextCursor ∧
        t.table.store.records = s.table.store.records) ∧
      ∀ later : List Call, (∀ n < later.length, (s.after (later.take n)).Roomy) →
        t.repliesTo (fun call => !call.isReport) later =
          s.repliesTo (fun call => !call.isReport) later) ∧
    ∀ c txn, s.cursors[i]? = some c → c.txn = some txn → s.table.ledger.state txn = .prepared →
      (∀ p, call.positioning? = some p →
        s.run (.cursor i call) = (.failed (.preparedTransaction p), s)) ∧
      (call.isBounding = true → ∀ other,
        call.run ⟨c.setTxn other, s.table⟩ = ((call.run ⟨c, s.table⟩).1,
          ⟨(call.run ⟨c, s.table⟩).2.cursor.setTxn other, (call.run ⟨c, s.table⟩).2.table⟩)) := by
  intro s t
  have hsound : s.table.Sound f :=
    sound_after (Table.sound_empty f paging) fun n hn => memory n (Nat.le_of_lt hn)
  have hm : s.table.store.InMemory := by
    have hlast := memory past.length (Nat.le_refl _)
    rwa [List.take_length] at hlast
  constructor
  · intro e hfailed
    have hpeers : s.Peers (fun _ => True) t := peers_of_failed hsound.valid hm hfailed
    have halike := hpeers.table.alike
    refine ⟨⟨List.ext_getElem? fun i => hpeers.cursors i trivial, hpeers.txns, halike.ledger,
      halike.format, hpeers.table.nextCursor, halike.store.records_eq⟩, fun later hroom => ?_⟩
    exact hpeers.repliesTo_eq fun n hn => (hroom n hn).1
  · intro c txn hc htxn hprepared
    refine ⟨fun p hcall => ?_, fun hcall other => CursorCall.run_setTxn hcall ⟨c, s.table⟩ other⟩
    have hheld : Scan.heldUp ⟨c, s.table⟩ = true := by
      rw [Scan.heldUp, htxn]
      exact decide_eq_true hprepared
    show s.onCursor i call = _
    rw [onCursor_of_some hc, CursorCall.run_of_heldUp hheld hcall]
    obtain ⟨hi, rfl⟩ := List.getElem?_eq_some_iff.1 hc
    dsimp only
    rw [List.set_getElem_self hi]

/-- A cursor on a key, before a record whose key does not unpack and an update that is prepared. -/
def mishaps : List Call :=
  [.insert none (.int 1) [10], .store (.append [0, 0, 0, 0, 0, 0, 0, 3, 9] ⟨1, some [30]⟩),
    .txn (.begin false), .insert (some 0) (.int 5) [50], .txn (.move 0 .prepared), .openCursor {},
    .cursor 0 .next]

/-- What may come after a step that failed on the key. -/
def aftermath : List Call :=
  [.cursor 0 .get, .cursor 0 (.setBound .lower (.int 4) true), .cursor 0 .next,
    .insert none (.int 4) [40], .stats, .cursor 0 .next]

theorem failed_call_leaves_no_trace_mishaps :
    let s := (fresh ⟨[.int], by decide⟩ { codec := Snappy.codec }).after mishaps
    let t := (s.run (.cursor 0 .next)).2
    (∃ e, (s.run (.cursor 0 .next)).1 = .failed e) ∧ t.cursors = s.cursors ∧
      t.repliesTo (fun call => !call.isReport) aftermath =
        s.repliesTo (fun call => !call.isReport) aftermath := by
  have hfailed : (((fresh ⟨[.int], by decide⟩ { codec := Snappy.codec }).after mishaps).run
      (.cursor 0 .next)).1 =
      .failed (.corruption (.key .trailingBytes)) := by
    rfl
  obtain ⟨htrace, -⟩ := failed_call_leaves_no_trace ⟨[.int], by decide⟩ { codec := Snappy.codec } mishaps
    (by decide +kernel) 0 .next
  obtain ⟨⟨hcursors, -⟩, hlater⟩ := htrace _ hfailed
  exact ⟨⟨_, hfailed⟩, hcursors, hlater aftermath (by decide +kernel)⟩

def contested : List Call :=
  [.txn (.begin false), .insert (some 0) (.int 1) [10], .txn (.move 0 .prepared), .openCursor {}]

/-- The counters tell of a failed call, since it had come to a record before it failed. -/
theorem stats_tell_failed_call :
    let s := (fresh ⟨[.int], by decide⟩ { codec := Snappy.codec }).after contested
    let t := (s.run (.cursor 0 .next)).2
    (∃ e, (s.run (.cursor 0 .next)).1 = .failed e) ∧ (t.run .stats).1 ≠ (s.run .stats).1 := by
  refine ⟨⟨.preparedConflict "1", rfl⟩, fun h => ?_⟩
  have hvisited := congrArg (fun n => n.store.visited) (Reply.stats.inj h)
  exact absurd hvisited (by decide +kernel)

end Session

end Keyspan
