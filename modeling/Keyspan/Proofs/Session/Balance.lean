import Keyspan.Proofs.Compression.Literal
import Keyspan.Proofs.Session.Peers
import Keyspan.Proofs.Store.Balance

/-!
The counts of evictions and reloads are balanced wherever calls lead.

Calls of a session reach its store through writes, through cursors and directly, and all of them are put
together of the same few storage calls. So what none of these changes no call changes, whether it
succeeds or fails.
-/

set_option autoImplicit false
set_option relaxedAutoImplicit false

namespace Keyspan

variable {α β : Type} {part : Store → β}

private theorem Table.keeps_onStore {call : StoreM α} (h : Keeps part call) :
    Keeps (fun t : Table => part t.store) (Table.onStore call) := by
  intro t
  have hs := h t.store
  show part (finalState (Table.onStore call t)).store = _
  rw [Table.onStore]
  cases hrun : call.run t.store with
  | ok x s =>
    rw [hrun] at hs
    exact hs
  | error e s =>
    rw [hrun] at hs
    exact hs

private theorem Scan.keeps_part_onStore {call : StoreM α} (h : Keeps part call) :
    Keeps (fun s : Scan => part s.table.store) (Scan.onStore call) := by
  intro s
  have ht := Table.keeps_onStore h s.table
  show part (finalState (Scan.onStore call s)).table.store = _
  rw [Scan.onStore]
  cases hrun : (Table.onStore call).run s.table with
  | ok x t =>
    rw [hrun] at ht
    exact ht
  | error e t =>
    rw [hrun] at ht
    exact ht

private theorem Table.keeps_move (txn : Transaction) (target : TxnState) :
    Keeps (fun t : Table => part t.store) (Table.move txn target) := by
  intro t
  simp only [Table.move, EStateM.run_bind, EStateM.run_get]
  cases t.ledger.move txn target <;> rfl

section Writing

variable (happend : ∀ key v, Keeps part (Store.append key v))
include happend

private theorem Table.keeps_writeIn (txn : Transaction) (packed : Bytes) (value : Option Bytes) :
    Keeps (fun t : Table => part t.store) (Table.writeIn txn packed value) := by
  refine .bind .get fun t => ?_
  dsimp only
  split
  · exact .bind (.throw _) fun _ => keeps_onStore (happend _ _)
  · exact keeps_onStore (happend _ _)

private theorem Table.keeps_writeAlone (packed : Bytes) (value : Option Bytes) :
    Keeps (fun t : Table => part t.store) (Table.writeAlone packed value) := by
  refine .bind (fun _ => rfl) fun txn => ?_
  refine .bind (.tryCatch (keeps_onStore (happend _ _)) fun e => ?_) fun _ => keeps_move txn _
  exact .bind (keeps_move txn _) fun _ => .throw e

theorem Table.keeps_write (txn : Option Transaction) (key : Key) (value : Option Bytes) :
    Keeps (fun t : Table => part t.store) (Table.write txn key value) := by
  refine .bind .get fun t => ?_
  cases t.format.packKey key with
  | error e => exact .throw e
  | ok packed =>
    cases txn with
    | some txn => exact keeps_writeIn happend txn packed value
    | none => exact keeps_writeAlone happend packed value

private theorem Session.keeps_write (s : Session) (txn : Option Nat) (key : Key)
    (value : Option Bytes) :
    part (s.write txn key value).2.table.store = part s.table.store := by
  rw [Session.write]
  cases s.txn? txn with
  | none => rfl
  | some txn =>
    have hwrite := Table.keeps_write happend txn key value s.table
    dsimp only
    cases hrun : (Table.write txn key value).run s.table with
    | ok x t =>
      rw [hrun] at hwrite
      exact hwrite
    | error e t =>
      rw [hrun] at hwrite
      exact hwrite

end Writing

section Reading

variable (hseek : ∀ m, Keeps part (Store.seek m)) (hevict : ∀ i, Keeps part (Store.evictPage i))
include hseek hevict

private theorem Scan.keeps_store :
    Entire fun _ call => Keeps (fun s : Scan => part s.table.store) call where
  toCompositional := Keeps.compositional _
  throw := .throw
  count _ _ := rfl
  seek m := keeps_part_onStore (hseek m)
  place _ _ := rfl
  release key := keeps_part_onStore ((Keeps.compositional part).release hevict key)

private theorem Session.keeps_onCursor (s : Session) (i : Nat) (call : CursorCall) :
    part (s.onCursor i call).2.table.store = part s.table.store := by
  cases hc : s.cursors[i]? with
  | none => rw [Session.onCursor, hc]
  | some c =>
    rw [onCursor_of_some hc]
    exact CursorCall.keeps_run (Scan.keeps_store hseek hevict) (fun _ _ => rfl) call ⟨c, s.table⟩

end Reading

theorem StoreCall.keeps_store (happend : ∀ key v, Keeps part (Store.append key v))
    (hseek : ∀ m, Keeps part (Store.seek m)) (hevict : ∀ i, Keeps part (Store.evictPage i))
    (s : Store) (call : StoreCall) : part (call.run s).2 = part s := by
  cases call with
  | append key v => exact keeps_answer (happend key v) _ s
  | seek m => exact keeps_answer (hseek m) _ s
  | _ => exact keeps_run hevict (by nofun) (by nofun) s

theorem Session.keeps_store (happend : ∀ key v, Keeps part (Store.append key v))
    (hseek : ∀ m, Keeps part (Store.seek m)) (hevict : ∀ i, Keeps part (Store.evictPage i))
    (s : Session) (call : Call) : part (s.run call).2.table.store = part s.table.store := by
  cases call with
  | txn call => rfl
  | store call => exact StoreCall.keeps_store happend hseek hevict s.table.store call
  | insert txn key value => exact s.keeps_write happend txn key (some value)
  | remove txn key => exact s.keeps_write happend txn key none
  | stats => rfl
  | openCursor options => rfl
  | closeCursor i => exact s.keeps_onCursor hseek hevict i .reset
  | setTxn i txn =>
    rw [Session.run]
    cases s.txn? txn with
    | none => rfl
    | some txn => exact s.keeps_onCursor hseek hevict i (.setTxn txn)
  | cursor i call => exact s.keeps_onCursor hseek hevict i call

namespace Store

variable {s : Store}

/-- A store that calls have led to: storage calls alone, or the calls of a session on its table. -/
inductive Reached : Store → Prop
  | alone (order : KeyOrder) (paging : Paging) (calls : List StoreCall) :
    Reached ((empty order paging).after calls)
  | within (f : Format) (paging : Paging) (calls : List Call) :
    Reached ((Session.fresh f paging).after calls).table.store

private theorem imbalance_after (s : Store) (calls : List StoreCall) :
    (s.after calls).imbalance = s.imbalance := by
  induction calls generalizing s with
  | nil => rfl
  | cons call calls ih =>
    exact (ih _).trans (call.keeps_store keeps_imbalance_append keeps_imbalance_seek
      keeps_imbalance_evictPage s)

private theorem imbalance_session (s : Session) (calls : List Call) :
    (s.after calls).table.store.imbalance = s.table.store.imbalance := by
  induction calls generalizing s with
  | nil => rfl
  | cons call calls ih =>
    exact (ih _).trans (s.keeps_store keeps_imbalance_append keeps_imbalance_seek
      keeps_imbalance_evictPage call)

private theorem Reached.imbalance (h : s.Reached) : s.imbalance = 0 := by
  cases h with
  | alone order paging calls => exact imbalance_after _ calls
  | within f paging calls => exact imbalance_session _ calls

/-- What evicting the page at one index replies, and the store after it: the reply is true exactly when
the page was in memory and went away, and otherwise nothing has changed. -/
structure Flagged (s : Store) (i : Nat) (reply : Reply) (t : Store) : Prop where
  gone : reply = .flag true ↔ s.GivesUp i t
  same : reply ≠ .flag true → t = s
  away : reply = .flag false → s.AwayAt i
  answered : s.Compressible → ∃ b, reply = .flag b

private theorem flagged_evictPage (s : Store) (i : Nat) :
    s.Flagged i (StoreCall.run s (.evictPage i)).1 (StoreCall.run s (.evictPage i)).2 := by
  simp only [StoreCall.run, StoreCall.answer]
  rcases evictPage_cases s i with ⟨hrun, haway⟩ | ⟨t, hrun, h⟩ | ⟨e, hrun, hbig⟩
  · rw [hrun]
    refine ⟨⟨fun htrue => ?_, fun h => absurd rfl h.ne⟩, fun _ => rfl, fun _ => haway,
      fun _ => ⟨false, rfl⟩⟩
    cases htrue
  · rw [hrun]
    refine ⟨⟨fun _ => h, fun _ => rfl⟩, fun hne => absurd rfl hne, fun hfalse => ?_,
      fun _ => ⟨true, rfl⟩⟩
    cases hfalse
  · rw [hrun]
    refine ⟨⟨fun htrue => ?_, fun h => absurd rfl h.ne⟩, fun _ => rfl, fun hfalse => ?_,
      fun h => absurd h hbig⟩
    · cases htrue
    · cases hfalse

/-- Evicting all pages counts those that were in memory and leaves none there, and it succeeds where all
of them can be compressed. -/
theorem run_evictAll (s : Store) :
    (∀ n, (StoreCall.run s .evictAll).1 = .count n →
        n = s.residentPages ∧ (StoreCall.run s .evictAll).2.residentPages = 0) ∧
      (s.Compressible → ∃ n, (StoreCall.run s .evictAll).1 = .count n) := by
  simp only [StoreCall.run, StoreCall.answer]
  constructor
  · intro n hreply
    cases hrun : evictAll.run s with
    | error e t =>
      rw [hrun] at hreply
      cases hreply
    | ok m t =>
      rw [hrun] at hreply
      cases hreply
      exact evictAll_ok hrun
  · intro hs
    obtain ⟨n, t, hrun, -⟩ := Succeeds.compositional.evictAll succeeds_evictPage s hs
    rw [hrun]
    exact ⟨n, rfl⟩

theorem finalState_answer {call : StoreM α} (reply : α → Reply) (s : Store) :
    (StoreCall.answer reply call s).2 = finalState (call.run s) := by
  rw [StoreCall.answer]
  cases call.run s <;> rfl

/-- Wherever calls have led, the pages that were evicted are those that were reloaded since and those
that are away. Evicting all pages counts the ones in memory and leaves none there; evicting one tells
whether it was in memory; and neither a seek nor an append evicts any. -/
theorem evictions_balance (hs : s.Reached) :
    s.stats.evictions = s.stats.reloads + s.awayPages ∧
      (∀ n, (StoreCall.run s .evictAll).1 = .count n →
        n = s.residentPages ∧ (StoreCall.run s .evictAll).2.residentPages = 0) ∧
      (s.Compressible → ∃ n, (StoreCall.run s .evictAll).1 = .count n) ∧
      (∀ i, s.Flagged i (StoreCall.run s (.evictPage i)).1 (StoreCall.run s (.evictPage i)).2) ∧
      (∀ key, s.Flagged (s.pageFor key) (StoreCall.run s (.evictContaining key)).1
        (StoreCall.run s (.evictContaining key)).2) ∧
      (∀ m, s.Returns (StoreCall.run s (.seek m)).2) ∧
      ∀ key v, s.Absorbs (StoreCall.run s (.append key v)).2 := by
  obtain ⟨hcount, hanswer⟩ := s.run_evictAll
  refine ⟨evictions_eq_of_imbalance hs.imbalance, hcount, hanswer, s.flagged_evictPage,
    fun key => ?_, fun m => ?_, fun key v => ?_⟩
  · exact s.flagged_evictPage (s.pageFor key)
  · exact finalState_answer Reply.record s ▸ moves_seek m s
  · exact finalState_answer (fun _ => Reply.done) s ▸ moves_append key v s

/-- Three records on two pages, both evicted, and one of them read again. -/
def reread : Store :=
  (empty .bytewise { codec := Snappy.codec, capacity := 2, compression := .plain }).after
    [.append [1] ⟨1, some []⟩, .append [2] ⟨1, none⟩, .append [3] ⟨1, some [7]⟩, .evictAll,
      .seek (.exact [1])]

theorem evictions_balance_reread :
    reread.Reached ∧ reread.awayPages = 1 ∧
      reread.stats.evictions = reread.stats.reloads + 1 ∧
      (StoreCall.run reread .evictAll).1 = .count 1 := by
  have hreached : reread.Reached := .alone _ _ _
  obtain ⟨hbalance, hcount, hanswer, -⟩ := evictions_balance hreached
  have haway : reread.awayPages = 1 := by decide +kernel
  have hin : reread.residentPages = 1 := by decide +kernel
  obtain ⟨n, hn⟩ := hanswer (by decide +kernel)
  obtain ⟨hresident, -⟩ := hcount n hn
  rw [haway] at hbalance
  exact ⟨hreached, haway, hbalance, hn.trans (congrArg Reply.count (hresident.trans hin))⟩

end Store

end Keyspan
