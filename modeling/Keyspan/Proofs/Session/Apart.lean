import Keyspan.Proofs.Session.Walk

set_option autoImplicit false
set_option relaxedAutoImplicit false

namespace Keyspan

def Event.subject : Event → TxnId
  | began id => id
  | moved id _ => id
  | wrote id _ _ => id

namespace Log

variable {log since : Log} {id : TxnId}

theorem state?_append_of_subject_ne (h : ∀ e ∈ since, e.subject ≠ id) (log : Log) :
    state? (since ++ log) id = state? log id := by
  induction since with
  | nil => rfl
  | cons e since ih =>
    have hrest := ih fun e he => h e (List.mem_cons_of_mem _ he)
    have he := h e List.mem_cons_self
    rw [List.cons_append]
    cases e with
    | began i => exact (if_neg he).trans hrest
    | moved i target => exact (if_neg he).trans hrest
    | wrote i key value => exact hrest

private theorem writer_ne_of_subject_ne (h : ∀ e ∈ since, e.subject ≠ id) (order : KeyOrder)
    (key : Bytes) : ∀ v ∈ updates order key since, v.writer ≠ id := by
  intro v hv
  obtain ⟨e, he, hu⟩ := List.mem_filterMap.1 hv
  have hne := h e he
  cases e with
  | began i => cases hu
  | moved i target => cases hu
  | wrote i k value =>
    rw [Event.update?] at hu
    split at hu
    · obtain rfl := Option.some.inj hu
      exact hne
    · cases hu

theorem settled_append {own : Option TxnId} {base : Log} {new : List Version}
    (h : ∀ v ∈ new, some v.writer ≠ own ∧ base.state? v.writer ≠ some .committed)
    (old : List Version) : settled own base (new ++ old) = settled own base old := by
  have hany : (new ++ old).any (fun u => some u.writer = own) =
      old.any fun u => some u.writer = own := by
    have hnew : new.any (fun u => some u.writer = own) = false := by
      rw [List.any_eq_false]
      intro v hv
      simpa using (h v hv).1
    rw [List.any_append, hnew, Bool.false_or]
  have hcounts : counts own base (new ++ old) = counts own base old := by
    funext v
    rw [counts, counts, hany]
  have hnone : new.find? (counts own base old) = none := by
    rw [List.find?_eq_none]
    intro v hv
    rw [counts]
    split
    · simpa using (h v hv).1
    · simpa using (h v hv).2
  rw [settled, settled, hcounts, List.find?_append, hnone, Option.none_or]

/-- What a key reads as through a transaction stays what it was while the transaction does nothing. -/
theorem view_append (hv : Valid (since ++ log)) (hknown : (log.state? id).isSome)
    (hothers : ∀ e ∈ since, e.subject ≠ id) (order : KeyOrder) (key : Bytes) :
    view order (some id) (since ++ log) key = view order (some id) log key := by
  show settled (some id) (before id (since ++ log)) (updates order key (since ++ log)) =
    settled (some id) (before id log) (updates order key log)
  rw [before_append hv hknown, updates_append]
  refine settled_append (fun v hmem => ⟨?_, fun hcommitted => ?_⟩) _
  · intro he
    exact writer_ne_of_subject_ne hothers order key v hmem (Option.some.inj he)
  · obtain ⟨later, hlog⟩ := exists_began hv.right hknown
    have hsplit : log = (later ++ [.began id]) ++ before id log := by
      rw [List.append_assoc]
      exact hlog
    have hvalid : Valid ((later ++ [.began id]) ++ before id log) := hsplit ▸ hv.right
    have hfinished : Finished log v.writer := by
      refine ⟨.committed, ?_, rfl⟩
      have := state?_append_of_finished hvalid hcommitted rfl
      rwa [← hsplit] at this
    exact writer_ne_of_finished hv hfinished order key v hmem rfl

end Log

/-- A call that neither touches the cursor nor moves the transaction or writes in it. -/
def Call.isApart (i j : Nat) : Call → Bool
  | txn (.move t _) => t ≠ j
  | txn _ => true
  | store (.append _ _) => false
  | store _ => true
  | insert t _ _ => t ≠ some j
  | remove t _ => t ≠ some j
  | stats => true
  | openCursor _ => true
  | closeCursor k => k ≠ i
  | setTxn k _ => k ≠ i
  | cursor k _ => k ≠ i

theorem Call.isRaw_of_isApart {i j : Nat} {call : Call} (h : call.isApart i j = true) :
    call.isRaw = false := by
  cases call with
  | store call => cases call <;> first | rfl | cases h
  | _ => rfl

namespace Session

variable {s : Session} {f : Format} {log : Log}

theorem txns_run {j : Nat} {r : Transaction} (hr : s.txns[j]? = some r) (call : Call) :
    (s.run call).2.txns[j]? = some r := by
  have hwrite : ∀ txn key value, (s.write txn key value).2.txns = s.txns := by
    intro txn key value
    rw [write]
    split
    · rfl
    · split <;> rfl
  have hcursor : ∀ k call, (s.onCursor k call).2.txns = s.txns := by
    intro k call
    rw [onCursor]
    split <;> rfl
  cases call with
  | txn call =>
    have hlt : j < s.txns.length := (List.getElem?_eq_some_iff.1 hr).1
    cases call with
    | begin ignorePrepare => exact (List.getElem?_append_left hlt).trans hr
    | implicit => exact (List.getElem?_append_left hlt).trans hr
    | move t target =>
      show (TxnCall.run ⟨s.table.ledger, s.txns⟩ (.move t target)).2.opened[j]? = some r
      rw [TxnCall.run]
      split
      · exact hr
      · split <;> exact hr
    | info t => exact hr
    | stateOf id => exact hr
    | sees t id => exact hr
    | classify reader writer => exact hr
    | tracked => exact hr
  | store call => exact hr
  | insert txn key value => exact (congrArg (·[j]?) (hwrite txn key (some value))).trans hr
  | remove txn key => exact (congrArg (·[j]?) (hwrite txn key none)).trans hr
  | stats => exact hr
  | openCursor options => exact hr
  | closeCursor k => exact (congrArg (·[j]?) (hcursor k .reset)).trans hr
  | setTxn k txn =>
    rw [run]
    split
    · exact hr
    · exact (congrArg (·[j]?) (hcursor k _)).trans hr
  | cursor k call => exact (congrArg (·[j]?) (hcursor k call)).trans hr

theorem cursors_run_of_isApart {i j : Nat} {call : Call} (h : call.isApart i j = true)
    {c : Cursor} (hc : s.cursors[i]? = some c) : (s.run call).2.cursors[i]? = some c := by
  have hwrite : ∀ txn key value, (s.write txn key value).2.cursors = s.cursors := by
    intro txn key value
    rw [write]
    split
    · rfl
    · split <;> rfl
  have hcursor : ∀ k call, k ≠ i → (s.onCursor k call).2.cursors[i]? = some c := by
    intro k call hk
    rw [onCursor]
    split
    · exact hc
    · exact (List.getElem?_set_ne hk).trans hc
  cases call with
  | txn call => exact hc
  | store call => exact hc
  | insert txn key value => exact (congrArg (·[i]?) (hwrite txn key (some value))).trans hc
  | remove txn key => exact (congrArg (·[i]?) (hwrite txn key none)).trans hc
  | stats => exact hc
  | openCursor options =>
    have hlt : i < s.cursors.length := (List.getElem?_eq_some_iff.1 hc).1
    exact (List.getElem?_append_left hlt).trans hc
  | closeCursor k => exact hcursor k .reset (by simpa [Call.isApart] using h)
  | setTxn k txn =>
    rw [run]
    split
    · exact hc
    · exact hcursor k _ (by simpa [Call.isApart] using h)
  | cursor k call => exact hcursor k call (by simpa [Call.isApart] using h)

theorem Follows.nextId_ne (h : s.Follows f log) {r : Transaction} (hr : r ∈ s.txns) {id : TxnId}
    (hid : r.id? = some id) : s.table.ledger.nextId ≠ id := by
  rintro rfl
  have hknown := (h.opened r hr).isSome_state? hid
  rw [h.table.ledger.state?_nextId] at hknown
  cases hknown

theorem Follows.id_ne (h : s.Follows f log) {j t : Nat} {r txn : Transaction} {id : TxnId}
    (hr : s.txns[j]? = some r) (hid : r.id? = some id) (htj : t ≠ j)
    (htxn : s.txns[t]? = some txn) : txn.id ≠ id := by
  have hne : txn.id? ≠ some id := by
    obtain ⟨ht, rfl⟩ := List.getElem?_eq_some_iff.1 htxn
    obtain ⟨hj, rfl⟩ := List.getElem?_eq_some_iff.1 hr
    have hpair := List.pairwise_iff_getElem.1 h.distinct
    rcases Nat.lt_or_gt_of_ne htj with hlt | hgt
    · exact fun hi => hpair t j ht hj hlt id hi hid
    · exact hpair j t hj ht hgt id hid
  intro he
  cases htid : txn.id? with
  | some i =>
    rw [Transaction.id, htid] at he
    exact hne (htid.trans (congrArg some he))
  | none =>
    have hknown := (h.opened r (List.mem_of_getElem? hr)).isSome_state? hid
    rw [Transaction.id, htid] at he
    exact ((h.table.ledger.issued id).1 hknown).1 he.symm

private theorem Follows.subject_ne_written (h : s.Follows f log) {j : Nat} {r : Transaction}
    {id : TxnId}
    (hr : s.txns[j]? = some r) (hid : r.id? = some id) {t : Option Nat} (ht : t ≠ some j) (key : Key)
    (value : Option Bytes) : ∀ e ∈ s.written t key value, e.subject ≠ id := by
  intro e he
  unfold written at he
  cases t with
  | none =>
    have hnext := h.nextId_ne (List.mem_of_getElem? hr) hid
    have hmem : e ∈ [Event.moved s.table.ledger.nextId .committed,
        .wrote s.table.ledger.nextId key.encode value, .began s.table.ledger.nextId] := he
    simp only [List.mem_cons, List.not_mem_nil, or_false] at hmem
    rcases hmem with rfl | rfl | rfl <;> exact hnext
  | some t =>
    cases htxn : s.txns[t]? with
    | none =>
      have hnone : s.txn? (some t) = none := by rw [txn?, htxn]; rfl
      rw [hnone] at he
      cases he
    | some txn =>
      have hsome : s.txn? (some t) = some (some txn) := by rw [txn?, htxn]; rfl
      rw [hsome] at he
      obtain rfl := List.mem_singleton.1 he
      exact h.id_ne hr hid (fun htj => ht (congrArg some htj)) htxn

theorem Follows.subject_ne (h : s.Follows f log) {i j : Nat} {r : Transaction} {id : TxnId}
    (hr : s.txns[j]? = some r) (hid : r.id? = some id) {call : Call}
    (hcall : call.isApart i j = true) : ∀ e ∈ s.events call, e.subject ≠ id := by
  intro e he
  unfold events at he
  split at he
  next b id' hreply =>
    obtain rfl := List.mem_singleton.1 he
    have hbegun : s.table.ledger.nextId = id' := Reply.begun.inj hreply
    rw [← hbegun]
    exact h.nextId_ne (List.mem_of_getElem? hr) hid
  next t target _ =>
    have htj : t ≠ j := of_decide_eq_true hcall
    cases htxn : s.txns[t]? with
    | none =>
      rw [htxn] at he
      cases he
    | some txn =>
      rw [htxn] at he
      obtain rfl := List.mem_singleton.1 he
      exact h.id_ne hr hid htj htxn
  next t key value _ => exact h.subject_ne_written hr hid (of_decide_eq_true hcall) key _ e he
  next t key _ => exact h.subject_ne_written hr hid (of_decide_eq_true hcall) key _ e he
  next => cases he

/-- A cursor is being walked: it is what it was but for its place, and the calls to come are its
steps or leave it alone. -/
structure Walked (i j : Nat) (dir : Direction) (c : Cursor) (calls : List Call) (s : Session) :
    Prop where
  cursor : ∃ p, s.cursors[i]? = some { c with place := p }
  apart : ∀ call ∈ calls, call = .cursor i dir.call ∨ call.isApart i j = true
  fits : c.options.releaseEvict = true →
    ∀ n ≤ calls.length, (s.after (calls.take n)).table.store.Fits

/-- A cursor can be walked as long as what it is shown does not change. -/
theorem scanning_walked {i j : Nat} {dir : Direction} {c : Cursor}
    {shown : Bytes → Bytes → Prop} {mayFail : Prop} {J : List Call → Session → Prop}
    (hready : ∀ call calls s p, J (call :: calls) s →
      (c.options.releaseEvict = true → s.table.store.Fits) →
      Scan.Ready ⟨{ c with place := p }, s.table⟩ f c.bounds shown mayFail)
    (hkeeps : ∀ call calls s, J (call :: calls) s →
      call = .cursor i dir.call ∨ call.isApart i j = true → J calls (s.run call).2) :
    Scanning (fun calls s => J calls s ∧ Walked i j dir c calls s) i dir f c.bounds shown
      mayFail where
  ready call calls s := by
    rintro ⟨hJ, hwalked⟩
    obtain ⟨p, hc⟩ := hwalked.cursor
    exact ⟨_, hc, hready call calls s p hJ fun hrelease => hwalked.fits hrelease 0 (Nat.zero_le _)⟩
  keeps call calls s := by
    rintro ⟨hJ, hwalked⟩
    have hcall := hwalked.apart call List.mem_cons_self
    refine ⟨hkeeps call calls s hJ hcall, ?_, ?_, ?_⟩
    · obtain ⟨p, hc⟩ := hwalked.cursor
      rcases hcall with rfl | hapart
      · have hr := hready _ calls s p hJ fun hrelease => hwalked.fits hrelease 0 (Nat.zero_le _)
        have hi : i < s.cursors.length := (List.getElem?_eq_some_iff.1 hc).1
        obtain ⟨p', t, ⟨e, hrun⟩ | ⟨-, key, hrun⟩⟩ := hr.step_reply dir
        · rw [run_step_ok hc dir hrun]
          exact ⟨p', List.getElem?_set_self hi⟩
        · rw [run_step_error hc dir hrun]
          exact ⟨p', List.getElem?_set_self hi⟩
      · exact ⟨p, cursors_run_of_isApart hapart hc⟩
    · exact fun call' hmem => hwalked.apart call' (List.mem_cons_of_mem call hmem)
    · exact fun hrelease n hn => hwalked.fits hrelease (n + 1) (Nat.succ_le_succ hn)
  leaves call calls s := by
    rintro ⟨-, hwalked⟩ hno
    obtain ⟨p, hc⟩ := hwalked.cursor
    have hapart := (hwalked.apart call List.mem_cons_self).resolve_left hno
    rw [cursors_run_of_isApart hapart hc, hc]

end Session

end Keyspan
