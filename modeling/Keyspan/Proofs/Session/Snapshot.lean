import Keyspan.Proofs.Compression.Literal
import Keyspan.Proofs.Session.Apart
import Keyspan.Proofs.Session.Shown

/-!
A scan inside a transaction is a stable snapshot.

As long as the transaction and the cursor are left alone, each key reads through them as it did when
the scan began, or as a conflict for the time being. So the steps of the cursor list one snapshot,
whatever the calls between them do.
-/

set_option autoImplicit false
set_option relaxedAutoImplicit false

namespace Keyspan.Session

/-- A scan began when this was the log, and its transaction has been left alone since. -/
structure Reading (f : Format) (log : Log) (j : Nat) (r : Transaction) (id : TxnId)
    (calls : List Call) (s : Session) : Prop where
  follows : ∃ since : Log, s.Follows f (since ++ log) ∧ (∀ e ∈ since, e.subject ≠ id) ∧
    (since ++ log).weight + Call.footprints calls < 2 ^ 64
  txn : s.txns[j]? = some r

variable {f : Format} {log : Log} {i j : Nat} {dir : Direction} {c : Cursor} {r : Transaction}
  {id : TxnId} {call : Call} {calls : List Call} {s : Session}

theorem Reading.ready (h : Reading f log j r id (call :: calls) s) (hreader : c.txn = some r)
    (hid : r.id? = some id) (hactive : log.state? id = some .active)
    (hfits : c.options.releaseEvict = true → s.table.store.Fits) :
    Scan.Ready ⟨c, s.table⟩ f c.bounds (ShownBy f (log.view (.typed f) (some id)))
      (r.ignorePrepare = false) := by
  obtain ⟨since, hfollows, hothers, hroom⟩ := h.follows
  have hweight : Log.weight (since ++ log) < 2 ^ 64 := by omega
  have hknown : (log.state? id).isSome := by
    rw [hactive]
    rfl
  have hstate : s.table.ledger.state r = .active := by
    rw [Ledger.state, hid]
    refine hfollows.table.ledger.stateOf_eq ?_
    rw [Log.state?_append_of_subject_ne hothers]
    exact hactive
  have hscan : Scan.reader ⟨c, s.table⟩ = r := by
    simp only [Scan.reader, hreader, hstate, TxnState.isRunning, if_true]
  have hreads : ∀ x ∈ s.table.store.records,
      s.table.ledger.Reads r (since ++ log) (Log.before id (since ++ log)) x.versions := by
    intro x hx
    rw [hfollows.table.versions_eq hx]
    exact (hfollows.reads (List.mem_of_getElem? h.txn) hid x.key).2
  refine ⟨hfollows.table.format, rfl, hfollows.table.store.valid, hfits, ?_, ?_, ?_⟩
  · intro txn htxn
    obtain rfl := Option.some.inj (hreader.symm.trans htxn)
    rw [hstate]
    intro h
    cases h
  · refine hfollows.table.shows hweight (fun k v hv => ?_) ?_
    · rw [Log.updates_append]
      exact List.append_ne_nil_of_right_ne_nil _ (Log.updates_ne_nil_of_view hv)
    · intro x hx
      rw [hscan, ← Log.view_append hfollows.table.valid hknown hothers, Log.view, ← hid,
        ← hfollows.table.versions_eq hx]
      exact (hreads x hx).settled_or_conflict.symm
  · intro x hx hconflict
    rw [hscan] at hconflict
    exact ((hreads x hx).conflict_iff.1 hconflict).1

private theorem Reading.step (h : Reading f log j r id (call :: calls) s) (hid : r.id? = some id)
    (hcall : call = .cursor i dir.call ∨ call.isApart i j = true) :
    Reading f log j r id calls (s.run call).2 := by
  obtain ⟨since, hfollows, hothers, hroom⟩ := h.follows
  have hraw : call.isRaw = false := by
    rcases hcall with rfl | hapart
    · rfl
    · exact Call.isRaw_of_isApart hapart
  have hevents : ∀ e ∈ s.events call, e.subject ≠ id := by
    rcases hcall with rfl | hapart
    · exact fun e he => absurd he List.not_mem_nil
    · exact hfollows.subject_ne h.txn hid hapart
  have hnext := weight_next_le s (since ++ log) call calls
  rw [Call.footprints_cons] at hroom hnext
  refine ⟨⟨s.events call ++ since, ?_, ?_, ?_⟩, txns_run h.txn call⟩
  · rw [List.append_assoc]
    exact hfollows.run hraw (by omega)
  · intro e he
    rcases List.mem_append.1 he with he | he
    · exact hevents e he
    · exact hothers e he
  · rw [List.append_assoc]
    omega

theorem scanning_reading (f : Format) (i j : Nat) (dir : Direction) (hreader : c.txn = some r)
    (hid : r.id? = some id) (hactive : log.state? id = some .active) :
    Scanning (fun calls s => Reading f log j r id calls s ∧ Walked i j dir c calls s) i dir f
      c.bounds (ShownBy f (log.view (.typed f) (some id))) (r.ignorePrepare = false) :=
  scanning_walked
    (fun _ _ _ p h hfits => h.ready (c := { c with place := p }) hreader hid hactive hfits)
    fun _ _ _ h hcall => h.step hid hcall

/-- A cursor reads through an active transaction, and between its steps come any calls that leave the
two alone: others begin, write, prepare, commit and abort, and pages are evicted. Then what its steps
find, up to the first time that they find none, are the entries in range of the snapshot that the
transaction had at the start, in typed order and each once, from the first on or from the last. A step
fails before a prepared update of another transaction only, and never if those are ignored. -/
theorem scan_lists_snapshot (f : Format) (paging : Paging) (past : List Call)
    (through : ∀ call ∈ past, call.isRaw = false) (room : Call.footprints past < 2 ^ 64) :
    let s := (fresh f paging).after past
    let log := (fresh f paging).log past
    ∀ i j c r id, s.cursors[i]? = some c → c.position = .unpositioned → c.txn = some r →
      s.txns[j]? = some r → r.id? = some id → log.state? id = some .active →
      ∃ es, Entries f c.bounds (log.view (.typed f) (some id)) es ∧
        ∀ dir scan, (∀ call ∈ scan, call = .cursor i dir.call ∨ call.isApart i j = true) →
          Call.footprints past + Call.footprints scan < 2 ^ 64 →
          (c.options.releaseEvict = true →
            ∀ n ≤ scan.length, (s.after (scan.take n)).table.store.Fits) →
          let replies := s.repliesTo (Call.isStep i dir) scan
          let found := replies.filterMap Reply.found?
          found.takeWhile Option.isSome <+: (dir.arrange es).map some ∧
            (none ∈ found → found.takeWhile Option.isSome = (dir.arrange es).map some) ∧
            ∀ reply ∈ replies, (∃ e, reply = .entry e) ∨
              r.ignorePrepare = false ∧ ∃ key, reply = .failed (.preparedConflict key) := by
  intro s log i j c r id hc hstart hreader hr hid hactive
  have hweight := weight_log_le (fresh f paging) [] past
  have hempty : Log.weight [] = 0 := rfl
  have h := (follows_fresh f paging).after through (by omega)
  rw [List.append_nil] at h hweight
  have hroom : log.weight ≤ Call.footprints past := by
    rw [hempty, Nat.zero_add] at hweight
    exact hweight
  obtain ⟨es, hes⟩ := h.table.exists_entries (by omega)
    (fun _ _ => Log.updates_ne_nil_of_view) c.bounds
  refine ⟨es, hes, ?_⟩
  intro dir scan hscan hfits hreleased
  obtain ⟨all, hall, hentries⟩ := hes.lists dir
  have hreading : Reading f log j r id scan s := by
    refine ⟨⟨[], h, fun e he => absurd he List.not_mem_nil, ?_⟩, hr⟩
    show log.weight + Call.footprints scan < 2 ^ 64
    omega
  have hwalked : Walked i j dir c scan s := ⟨⟨c.place, hc⟩, hscan, hreleased⟩
  have hwalk := scanning_reading f i j dir hreader hid hactive
  obtain ⟨hfound, hdone⟩ := hwalk.found hall ⟨hreading, hwalked⟩ hc (Or.inl ⟨hstart, rfl⟩)
  rw [hentries] at hfound hdone
  exact ⟨hfound, hdone, hwalk.replies ⟨hreading, hwalked⟩⟩

/-- A cursor that reads through a transaction, with an update of its own between two others. -/
def prepared : List Call :=
  [.insert none (.int 3) [1], .insert none (.int 7) [2], .txn (.begin true),
    .insert (some 0) (.int 5) [3], .openCursor {}, .setTxn 0 (some 0)]

/-- A scan that others write into, ahead of it and behind, with one of them prepared. -/
def disturbed : List Call :=
  [.cursor 0 .next, .insert none (.int 4) [4], .txn (.begin false), .store .evictAll,
    .insert (some 1) (.int 7) [5], .txn (.move 1 .prepared), .remove none (.int 3), .cursor 0 .next,
    .cursor 0 .next, .cursor 0 .next]

theorem scan_lists_snapshot_disturbed :
    let s := (fresh ⟨[.int], by decide⟩ { codec := Snappy.codec, capacity := 2 }).after prepared
    let found := (s.repliesTo (Call.isStep 0 .forward) disturbed).filterMap Reply.found?
    found.length = 4 ∧ ∃ es : List Entry, es.Pairwise (fun x y => x.key.compare y.key = .lt) ∧
      ⟨.int 5, [3]⟩ ∈ es ∧ ⟨.int 7, [2]⟩ ∈ es ∧ (∀ v, ⟨.int 4, v⟩ ∉ es) ∧
      found.takeWhile Option.isSome = es.map some := by
  intro s found
  let r : Transaction := ⟨some 3, ⟨3, []⟩, true⟩
  obtain ⟨es, ⟨hsorted, hmem⟩, hscan⟩ :=
    scan_lists_snapshot ⟨[.int], by decide⟩ { codec := Snappy.codec, capacity := 2 } prepared
      (by decide) (by decide)
      0 0 { id := 1, options := {}, txn := some r } r 3 (by decide +kernel) rfl rfl
      (by decide +kernel) rfl (by decide +kernel)
  obtain ⟨-, hall, -⟩ := hscan .forward disturbed (by decide) (by decide) nofun
  refine ⟨by decide +kernel, es, hsorted, ?_, ?_, ?_, hall (by decide +kernel)⟩
  · exact (hmem _ _).2 ⟨rfl, by decide, rfl, by decide +kernel⟩
  · exact (hmem _ _).2 ⟨rfl, by decide, rfl, by decide +kernel⟩
  · intro v hv
    have hview := ((hmem _ _).1 hv).2.2.2
    have hidden : Log.view (.typed ⟨[.int], by decide⟩) (some 3)
        ((fresh ⟨[.int], by decide⟩ { codec := Snappy.codec, capacity := 2 }).log prepared)
        (Key.encode (.int 4)) =
          .hidden := by
      decide +kernel
    rw [hidden] at hview
    cases hview

end Keyspan.Session
