import Keyspan.Proofs.Compression.Literal
import Keyspan.Proofs.Cursor.Twins
import Keyspan.Proofs.Session.Autocommit
import Keyspan.Proofs.Session.Walk

/-!
Paging makes no difference.

Two runs of the same calls may page their tables differently, evict pages at different times, and give
up the pages behind their cursors or keep them. Every reply that does not tell of pages is the same in
both, and so is all that their cursors, their transactions and their counters come to.
-/

set_option autoImplicit false
set_option relaxedAutoImplicit false

namespace Keyspan

namespace Scan

private theorem twins_of_cursor_eq {c d : Cursor} (hcursor : d.releasing false = c.releasing false)
    {t u : Table} (htables : t.Twins u) (hleft : c.options.releaseEvict = true → t.store.Fits)
    (hright : d.options.releaseEvict = true → u.store.Fits) :
    Twins c.options.releaseEvict d.options.releaseEvict ⟨c, t⟩ ⟨d, u⟩ := by
  have h := Twins.mk (c.releasing false) htables hleft hright
  rw [← hcursor] at h
  have hd : (d.releasing false).releasing d.options.releaseEvict = d := rfl
  rw [hd, hcursor] at h
  exact h

end Scan

def Call.retaining : Call → Call
  | openCursor options => openCursor (options.releasing false)
  | call => call

def Call.unpaged (calls : List Call) : List Call :=
  (calls.filter fun call => !call.isEviction).map retaining

def Stats.unpaged (s : Stats) : Stats :=
  { s with store.evictions := 0, store.reloads := 0 }

def Reply.unpaged : Reply → Reply
  | pages _ _ => pages 0 0
  | stats s => stats s.unpaged
  | reply => reply

private theorem Call.eq_or_openCursor {call call' : Call} (h : call'.retaining = call.retaining) :
    call' = call ∨ ∃ o o', call = openCursor o ∧ call' = openCursor o' ∧
      o'.releasing false = o.releasing false := by
  cases call with
  | openCursor o =>
    cases call' with
    | openCursor o' => exact Or.inr ⟨o, o', rfl, rfl, openCursor.inj h⟩
    | _ => cases h
  | _ =>
    cases call' with
    | openCursor o' => cases h
    | _ => exact Or.inl h

/-- Runs of the same calls, but for evictions that come before, between and after them. -/
inductive Call.Interleaved : List Call → List Call → Prop
  | nil : Interleaved [] []
  | left {call : Call} {calls calls' : List Call} (hcall : call.isEviction = true)
      (h : Interleaved calls calls') : Interleaved (call :: calls) calls'
  | right {call' : Call} {calls calls' : List Call} (hcall : call'.isEviction = true)
      (h : Interleaved calls calls') : Interleaved calls (call' :: calls')
  | both {call call' : Call} {calls calls' : List Call} (hcall : call.isEviction = false)
      (hcall' : call'.isEviction = false) (hsame : call'.retaining = call.retaining)
      (h : Interleaved calls calls') : Interleaved (call :: calls) (call' :: calls')

private theorem Call.unpaged_cons_of_isEviction {call : Call} (h : call.isEviction = true)
    (calls : List Call) : unpaged (call :: calls) = unpaged calls := by
  rw [unpaged, List.filter_cons_of_neg (by simp [h])]
  rfl

private theorem Call.unpaged_cons {call : Call} (h : call.isEviction = false) (calls : List Call) :
    unpaged (call :: calls) = call.retaining :: unpaged calls := by
  rw [unpaged, List.filter_cons_of_pos (by simp [h])]
  rfl

private theorem Call.interleaved_of_unpaged_eq {calls calls' : List Call}
    (h : unpaged calls' = unpaged calls) : Interleaved calls calls' := by
  induction calls generalizing calls' with
  | nil =>
    induction calls' with
    | nil => exact .nil
    | cons call' calls' ih =>
      cases hcall' : call'.isEviction with
      | true =>
        rw [unpaged_cons_of_isEviction hcall'] at h
        exact .right hcall' (ih h)
      | false =>
        rw [unpaged_cons hcall'] at h
        cases h
  | cons call calls ih =>
    cases hcall : call.isEviction with
    | true =>
      rw [unpaged_cons_of_isEviction hcall] at h
      exact .left hcall (ih h)
    | false =>
      rw [unpaged_cons hcall] at h
      induction calls' with
      | nil => cases h
      | cons call' calls' ih' =>
        cases hcall' : call'.isEviction with
        | true =>
          rw [unpaged_cons_of_isEviction hcall'] at h
          exact .right hcall' (ih' h)
        | false =>
          rw [unpaged_cons hcall'] at h
          obtain ⟨hsame, hrest⟩ := List.cons.inj h
          exact .both hcall hcall' hsame (ih hrest)

namespace Session

/-- Memory holds the payload of every page, and pages that cursors give up are below what the
compression takes. -/
def Roomy (s : Session) : Prop :=
  s.table.store.InMemory ∧
    ((∃ c ∈ s.cursors, c.options.releaseEvict = true) → s.table.store.Fits)

instance (s : Session) : Decidable s.Roomy :=
  inferInstanceAs (Decidable (_ ∧ (_ → _)))

/-- Sessions that differ at most in how their tables page records, and in which of their cursors give up
pages. -/
structure Twins (s t : Session) : Prop where
  table : s.table.Twins t.table
  txns : t.txns = s.txns
  cursors : t.cursors.map (·.releasing false) = s.cursors.map (·.releasing false)

private theorem twins_fresh (f : Format) (paging paging' : Paging) :
    (fresh f paging).Twins (fresh f paging') :=
  ⟨Table.twins_empty f paging paging', rfl, rfl⟩

namespace Twins

variable {s t : Session}

private theorem symm (h : s.Twins t) : t.Twins s :=
  ⟨h.table.symm, h.txns.symm, h.cursors.symm⟩

theorem evict (h : s.Twins t) (hs : s.Roomy) {call : Call} (hcall : call.isEviction = true) :
    (s.run call).2.Twins t := by
  cases call with
  | store call =>
    refine ⟨h.table.setStore (h.table.store.run_left hs.1 ?_ ?_), h.txns, h.cursors⟩
    · cases call <;> first | rfl | cases hcall
    · rintro m rfl
      cases hcall
  | _ => cases hcall

private theorem onCursor (h : s.Twins t) (hs : s.Roomy) (ht : t.Roomy) (i : Nat) (call : CursorCall) :
    (t.onCursor i call).1 = (s.onCursor i call).1 ∧
      (s.onCursor i call).2.Twins (t.onCursor i call).2 := by
  have hget : t.cursors[i]?.map (·.releasing false) = s.cursors[i]?.map (·.releasing false) := by
    rw [← List.getElem?_map, ← List.getElem?_map, h.cursors]
  rw [Session.onCursor, Session.onCursor]
  cases hc : s.cursors[i]? with
  | none =>
    rw [hc] at hget
    rw [Option.map_eq_none_iff.1 hget]
    exact ⟨rfl, h⟩
  | some c =>
    rw [hc] at hget
    obtain ⟨d, hd, hcursor⟩ := Option.map_eq_some_iff.1 hget
    have hleft := fun hrelease => hs.2 ⟨c, List.mem_of_getElem? hc, hrelease⟩
    have hright := fun hrelease => ht.2 ⟨d, List.mem_of_getElem? hd, hrelease⟩
    obtain ⟨hreply, hafter⟩ :=
      CursorCall.paired_run (Scan.parallel_twins _ _)
        (Scan.twins_of_cursor_eq hcursor h.table hleft hright) call
    rw [hd]
    refine ⟨hreply, hafter.tables, h.txns, ?_⟩
    show (t.cursors.set i _).map _ = (s.cursors.set i _).map _
    rw [List.map_set, List.map_set, h.cursors, hafter.cursor_eq]

private theorem txn?_eq (h : s.Twins t) (txn : Option Nat) : t.txn? txn = s.txn? txn := by
  cases txn with
  | none => rfl
  | some i => rw [txn?, txn?, h.txns]

private theorem write (h : s.Twins t) (txn : Option Nat) (key : Key) (value : Option Bytes) :
    (t.write txn key value).1 = (s.write txn key value).1 ∧
      (s.write txn key value).2.Twins (t.write txn key value).2 := by
  rw [Session.write, Session.write, h.txn?_eq]
  cases s.txn? txn with
  | none => exact ⟨rfl, h⟩
  | some txn =>
    have hwrite := Table.writable_twins.write txn key value s.table t.table h.table
    dsimp only
    generalize (Table.write txn key value).run s.table = r at hwrite
    generalize (Table.write txn key value).run t.table = q at hwrite
    cases hwrite with
    | ok htables => exact ⟨rfl, htables, h.txns, h.cursors⟩
    | error htables => exact ⟨rfl, htables, h.txns, h.cursors⟩

private theorem store (h : s.Twins t) {call : StoreCall}
    (hcall : (Call.store call).isEviction = false) :
    (t.run (.store call)).1.unpaged = (s.run (.store call)).1.unpaged ∧
      (s.run (.store call)).2.Twins (t.run (.store call)).2 := by
  cases call with
  | append key v =>
    have happend := h.table.store.append key v
    show (StoreCall.answer _ _ t.table.store).1.unpaged =
        (StoreCall.answer _ _ s.table.store).1.unpaged ∧
      Twins { s with table.store := (StoreCall.answer _ _ s.table.store).2 }
        { t with table.store := (StoreCall.answer _ _ t.table.store).2 }
    rw [StoreCall.answer, StoreCall.answer]
    generalize (Store.append key v).run s.table.store = r at happend
    generalize (Store.append key v).run t.table.store = q at happend
    cases happend with
    | ok hstores => exact ⟨rfl, h.table.setStore hstores, h.txns, h.cursors⟩
    | error hstores => exact ⟨rfl, h.table.setStore hstores, h.txns, h.cursors⟩
  | seek m =>
    obtain ⟨u, v, hu, hv, huv, -, -⟩ := h.table.store.seek m
    show (StoreCall.answer .record _ t.table.store).1.unpaged =
        (StoreCall.answer .record _ s.table.store).1.unpaged ∧
      Twins { s with table.store := (StoreCall.answer .record _ s.table.store).2 }
        { t with table.store := (StoreCall.answer .record _ t.table.store).2 }
    rw [StoreCall.answer, StoreCall.answer, hu, hv]
    exact ⟨rfl, h.table.setStore huv, h.txns, h.cursors⟩
  | pages => exact ⟨rfl, h.table.setStore h.table.store, h.txns, h.cursors⟩
  | _ => cases hcall

private theorem openCursor (h : s.Twins t) {o o' : CursorOptions}
    (ho : o'.releasing false = o.releasing false) :
    (t.run (.openCursor o')).1 = (s.run (.openCursor o)).1 ∧
      (s.run (.openCursor o)).2.Twins (t.run (.openCursor o')).2 := by
  refine ⟨congrArg Reply.opened h.table.nextCursor, ?_, h.txns, ?_⟩
  · exact ⟨h.table.format, h.table.ledger, h.table.scans, congrArg (· + 1) h.table.nextCursor,
      h.table.store⟩
  · show (t.cursors ++ [_]).map _ = (s.cursors ++ [_]).map _
    rw [List.map_append, List.map_append, h.cursors, h.table.nextCursor]
    refine congrArg (_ ++ [·]) ?_
    exact congrArg (fun o => ({ id := s.table.nextCursor, options := o } : Cursor)) ho

theorem onTxn (h : s.Twins t) (call : TxnCall) :
    (t.run (.txn call)).1 = (s.run (.txn call)).1 ∧
      (s.run (.txn call)).2.Twins (t.run (.txn call)).2 := by
  have hdesk : (⟨t.table.ledger, t.txns⟩ : Desk) = ⟨s.table.ledger, s.txns⟩ := by
    rw [h.table.ledger, h.txns]
  refine ⟨congrArg (fun d => (call.run d).1) hdesk, ?_,
    congrArg (fun d => (call.run d).2.opened) hdesk, h.cursors⟩
  exact ⟨h.table.format, congrArg (fun d => (call.run d).2.ledger) hdesk, h.table.scans,
    h.table.nextCursor, h.table.store⟩

private theorem stats_eq (h : s.Twins t) : t.table.stats.unpaged = s.table.stats.unpaged := by
  show (⟨t.table.scans, ⟨t.table.store.visited, 0, 0⟩⟩ : Stats) =
    ⟨s.table.scans, ⟨s.table.store.visited, 0, 0⟩⟩
  rw [h.table.scans, h.table.store.visited]

/-- A call that is no eviction replies the same in both but for what it tells of pages, and leaves them
twins. -/
theorem run (h : s.Twins t) (hs : s.Roomy) (ht : t.Roomy) {call call' : Call}
    (hcall : call.isEviction = false) (hsame : call'.retaining = call.retaining) :
    (t.run call').1.unpaged = (s.run call).1.unpaged ∧ (s.run call).2.Twins (t.run call').2 := by
  rcases Call.eq_or_openCursor hsame with rfl | ⟨o, o', rfl, rfl, ho⟩
  · cases call' with
    | txn call => exact (h.onTxn call).imp_left (congrArg Reply.unpaged)
    | store call => exact h.store hcall
    | insert txn key value => exact (h.write txn key (some value)).imp_left (congrArg Reply.unpaged)
    | remove txn key => exact (h.write txn key none).imp_left (congrArg Reply.unpaged)
    | stats => exact ⟨congrArg Reply.stats h.stats_eq, h⟩
    | openCursor o => exact (h.openCursor rfl).imp_left (congrArg Reply.unpaged)
    | closeCursor i => exact (h.onCursor hs ht i .reset).imp_left (congrArg Reply.unpaged)
    | setTxn i txn =>
      rw [Session.run, Session.run, h.txn?_eq]
      cases s.txn? txn with
      | none => exact ⟨rfl, h⟩
      | some txn => exact (h.onCursor hs ht i (.setTxn txn)).imp_left (congrArg Reply.unpaged)
    | cursor i call => exact (h.onCursor hs ht i call).imp_left (congrArg Reply.unpaged)
  · exact (h.openCursor ho).imp_left (congrArg Reply.unpaged)

/-- Whole runs, by the way their calls are interleaved: evictions pass on either side, and the others
are made in step. -/
theorem runs {calls calls' : List Call} (hcalls : Call.Interleaved calls calls') (h : s.Twins t)
    (hs : ∀ n < calls.length, (s.after (calls.take n)).Roomy)
    (ht : ∀ n < calls'.length, (t.after (calls'.take n)).Roomy) :
    (t.repliesTo (fun call => !call.isEviction) calls').map Reply.unpaged =
        (s.repliesTo (fun call => !call.isEviction) calls).map Reply.unpaged ∧
      (s.after calls).Twins (t.after calls') := by
  induction hcalls generalizing s t with
  | nil => exact ⟨rfl, h⟩
  | @left call calls calls' hcall _ ih =>
    rw [repliesTo_cons_of_neg (by simp [hcall])]
    exact ih (h.evict (hs 0 (Nat.succ_pos _)) hcall)
      (fun n hn => hs (n + 1) (Nat.succ_lt_succ hn)) ht
  | @right call' calls calls' hcall _ ih =>
    rw [repliesTo_cons_of_neg (by simp [hcall])]
    exact ih (h.symm.evict (ht 0 (Nat.succ_pos _)) hcall).symm hs
      fun n hn => ht (n + 1) (Nat.succ_lt_succ hn)
  | @both call call' calls calls' hcall hcall' hsame _ ih =>
    obtain ⟨hreply, hnext⟩ :=
      h.run (hs 0 (Nat.succ_pos _)) (ht 0 (Nat.succ_pos _)) hcall hsame
    obtain ⟨hreplies, hend⟩ := ih hnext (fun n hn => hs (n + 1) (Nat.succ_lt_succ hn))
      fun n hn => ht (n + 1) (Nat.succ_lt_succ hn)
    rw [repliesTo_cons_of_pos (by simp [hcall']), repliesTo_cons_of_pos (by simp [hcall]),
      List.map_cons, List.map_cons, hreply, hreplies]
    exact ⟨rfl, hend⟩

end Twins

/-- Two runs of the same calls reply alike to every call that is no eviction, except for what the reply
tells of pages, and end with the same transactions, the same cursors on the same places under the same
bounds, the same records and the same counters, except for those of evictions and reloads. How either
table pages its records, where evictions come in either run and which cursors give up the pages behind
them makes no difference, as long as memory holds the payload of every page and the compression takes
those that cursors give up. -/
theorem paging_unobservable (f : Format) (paging paging' : Paging) (calls calls' : List Call)
    (same : Call.unpaged calls' = Call.unpaged calls)
    (room : ∀ n < calls.length, ((fresh f paging).after (calls.take n)).Roomy)
    (room' : ∀ n < calls'.length, ((fresh f paging').after (calls'.take n)).Roomy) :
    let s := (fresh f paging).after calls
    let t := (fresh f paging').after calls'
    ((fresh f paging').repliesTo (fun call => !call.isEviction) calls').map Reply.unpaged =
        ((fresh f paging).repliesTo (fun call => !call.isEviction) calls).map Reply.unpaged ∧
      t.cursors.map (·.releasing false) = s.cursors.map (·.releasing false) ∧
      t.txns = s.txns ∧ t.table.ledger = s.table.ledger ∧
      t.table.store.records = s.table.store.records ∧
      t.table.stats.unpaged = s.table.stats.unpaged := by
  intro s t
  obtain ⟨hreplies, h⟩ :=
    (twins_fresh f paging paging').runs (Call.interleaved_of_unpaged_eq same) room room'
  exact ⟨hreplies, h.cursors, h.txns, h.table.ledger, h.table.store.records, h.stats_eq⟩

def shortPages : Paging :=
  { codec := Snappy.codec, capacity := 2, compression := .plain, verify := false }

def walked : List Call :=
  [.insert none (.int 3) [1], .insert none (.int 7) [2], .openCursor {}, .cursor 0 .next,
    .insert none (.int 5) [3], .cursor 0 .next, .remove none (.int 7), .cursor 0 .next,
    .store (.seek .last), .stats, .store .pages]

/-- The same with pages given up behind the cursor, and evicted between the calls. -/
def walkedEvicted : List Call :=
  [.insert none (.int 3) [1], .store .evictAll, .insert none (.int 7) [2],
    .openCursor { releaseEvict := true }, .cursor 0 .next, .store (.evictPage 0),
    .insert none (.int 5) [3], .cursor 0 .next, .store (.serve [.picked 2 [1, 0]]),
    .remove none (.int 7), .cursor 0 .next, .store (.seek .last), .stats, .store .pages]

theorem paging_unobservable_walked :
    let s := (fresh ⟨[.int], by decide⟩ { codec := Snappy.codec }).after walked
    let t := (fresh ⟨[.int], by decide⟩ shortPages).after walkedEvicted
    s.table.store.pages.length = 1 ∧ t.table.store.pages.length = 2 ∧
      s.table.store.stats.evictions = 0 ∧ t.table.store.stats.evictions = 4 ∧
      t.cursors.map (·.releasing false) = s.cursors.map (·.releasing false) ∧
      t.table.stats.unpaged = s.table.stats.unpaged := by
  obtain ⟨-, hcursors, -, -, -, hstats⟩ :=
    paging_unobservable ⟨[.int], by decide⟩ { codec := Snappy.codec } shortPages walked
      walkedEvicted (by decide)
      (by decide +kernel) (by decide +kernel)
  exact ⟨by decide +kernel, by decide +kernel, by decide +kernel, by decide +kernel, hcursors,
    hstats⟩

end Session

end Keyspan
