import Keyspan.Proofs.Compression.Literal
import Keyspan.Proofs.Session.History

/-!
Snapshot isolation of reads: whatever transactions did in whatever order, reading the chain of a stored
key through a transaction gives what had been committed when the transaction began, with its own
updates on top, or a conflict with a prepared update in the way.
-/

set_option autoImplicit false
set_option relaxedAutoImplicit false

namespace Keyspan

private theorem Log.begun_append (more log : Log) :
    begun (more ++ log) = begun more + begun log := by
  induction more with
  | nil => exact (Nat.zero_add _).symm
  | cons e more ih =>
    rw [List.cons_append]
    cases e with
    | began id =>
      show begun (more ++ log) + 1 = begun more + 1 + begun log
      omega
    | moved id target => exact ih
    | wrote id key value => exact ih

/-- The chain of a record lists the updates of its key. -/
theorem Table.Follows.versions_eq {t : Table} {f : Format} {log : Log} (h : t.Follows f log)
    {r : Record} (hr : r ∈ t.store.records) : r.versions = log.updates (.typed f) r.key := by
  rw [h.store.records] at hr
  rw [Log.updates_eq]
  exact (Flat.collects_ofAppends log.appends).versions r hr

theorem Table.Follows.reads_implicit {t : Table} {f : Format} {log : Log} (h : t.Follows f log)
    (key : Bytes) :
    t.ledger.Reads t.ledger.implicit log log (log.updates (.typed f) key) := by
  refine h.ledger.reads h.valid (List.nil_append log).symm h.ledger.snapshot ?_ _ _
  intro id hid
  cases hid

namespace Session

/-- An opened transaction began, and reads what was committed by then. -/
theorem Follows.reads {s : Session} {f : Format} {log : Log} (h : s.Follows f log)
    {txn : Transaction} (htxn : txn ∈ s.txns) {id : TxnId} (hid : txn.id? = some id)
    (key : Bytes) :
    (∃ since, log = since ++ .began id :: log.before id) ∧
      s.table.ledger.Reads txn log (log.before id) (log.updates (.typed f) key) := by
  have hopened := h.opened txn htxn
  rw [Transaction.Opened, hid] at hopened
  obtain ⟨hknown, hsnap⟩ := hopened
  obtain ⟨since, hlog⟩ := Log.exists_began h.table.valid hknown
  refine ⟨⟨since, hlog⟩, ?_⟩
  have hsplit : log = (since ++ [.began id]) ++ log.before id := by
    rw [List.append_assoc]
    exact hlog
  have hfirst : Log.state? (log.before id) id = none := by
    have hvalid := h.table.valid
    rw [hlog] at hvalid
    exact hvalid.right.1
  refine h.table.ledger.reads h.table.valid hsplit hsnap ?_ _ _
  intro i hi
  obtain rfl := Option.some.inj (hid.symm.trans hi)
  exact hfirst

theorem begun_events_le (s : Session) (call : Call) : (s.events call).begun ≤ 1 := by
  have hwritten : ∀ txn key value, (s.written txn key value).begun ≤ 1 := by
    intro txn key value
    rw [written]
    split
    next txn _ => cases txn <;> exact Nat.le_of_ble_eq_true rfl
    next => exact Nat.zero_le 1
  unfold events
  split
  next => exact Nat.le_refl 1
  next i target _ =>
    cases s.txns[i]? <;> exact Nat.zero_le 1
  next => exact hwritten _ _ _
  next => exact hwritten _ _ _
  next => exact Nat.zero_le 1

private theorem Follows.history {s : Session} {f : Format} {log : Log} (h : s.Follows f log)
    {calls : List Call} (hcalls : ∀ call ∈ calls, call.isEventful = true)
    (hroom : log.begun + calls.length + 1 < 2 ^ 64) :
    (s.after calls).Follows f (s.log calls ++ log) := by
  induction calls generalizing s log with
  | nil => exact h
  | cons call calls ih =>
    rw [List.length_cons] at hroom
    have hstep := h.eventful (by omega) (hcalls call List.mem_cons_self)
    have hbegun : Log.begun (s.events call ++ log) ≤ log.begun + 1 := by
      have := begun_events_le s call
      rw [Log.begun_append]
      omega
    have hrest := ih hstep (fun c hc => hcalls c (List.mem_cons_of_mem call hc)) (by omega)
    rw [← List.append_assoc] at hrest
    exact hrest

/-- After any history of transactions and writes, the chain of each stored key lists the updates of the
key. Read through an opened transaction it gives the snapshot of the log before the transaction began,
and read through an implicit one that of the whole log. -/
theorem reads_snapshot (f : Format) (paging : Paging) (calls : List Call)
    (history : ∀ call ∈ calls, call.isEventful = true) (short : calls.length + 1 < 2 ^ 64) :
    let s := (fresh f paging).after calls
    let log := (fresh f paging).log calls
    ∀ r ∈ s.table.store.records, r.versions = log.updates (.typed f) r.key ∧
      (∀ txn ∈ s.txns, ∀ id, txn.id? = some id →
        (∃ since, log = since ++ .began id :: log.before id) ∧
          s.table.ledger.Reads txn log (log.before id) r.versions) ∧
      s.table.ledger.Reads s.table.ledger.implicit log log r.versions := by
  intro s log r hr
  have hroom : Log.begun [] + calls.length + 1 < 2 ^ 64 := by
    show 0 + calls.length + 1 < 2 ^ 64
    omega
  have h : s.Follows f log := by
    have := (follows_fresh f paging).history history hroom
    rwa [List.append_nil] at this
  have hchain := h.table.versions_eq hr
  refine ⟨hchain, ?_, ?_⟩
  · intro txn htxn id hid
    rw [hchain]
    exact h.reads htxn hid r.key
  · rw [hchain]
    exact h.table.reads_implicit r.key

/-- A value committed in time and a prepared update in the way of the second transaction. -/
def contended : List Call :=
  [.txn (.begin false), .insert none (.int 7) [1], .txn (.begin false), .insert none (.int 7) [2],
    .insert (some 0) (.int 7) [3], .txn (.move 0 .prepared)]

theorem reads_snapshot_contended :
    let s := (fresh ⟨[.int], by decide⟩ { codec := Snappy.codec }).after contended
    ∃ r ∈ s.table.store.records, ∃ txn ∈ s.txns, txn.id? = some 3 ∧
      s.table.ledger.resolve txn r.versions = .conflict ∧
      s.table.ledger.resolve { txn with ignorePrepare := true } r.versions = .value [1] := by
  intro s
  let r : Record := ⟨Key.encode (.int 7), [⟨1, some [3]⟩, ⟨4, some [2]⟩, ⟨2, some [1]⟩]⟩
  let txn : Transaction := ⟨some 3, ⟨3, [1]⟩, false⟩
  have hr : r ∈ s.table.store.records := by decide +kernel
  have htxn : txn ∈ s.txns := by decide +kernel
  obtain ⟨-, hreads, -⟩ :=
    reads_snapshot ⟨[.int], by decide⟩ { codec := Snappy.codec } contended (by decide) (by decide) r
      hr
  refine ⟨r, hr, txn, htxn, rfl, ?_, by decide +kernel⟩
  rw [((hreads txn htxn 3 rfl).2).conflict_iff]
  decide +kernel

end Session

end Keyspan
