import Keyspan.Proofs.Key.Typed
import Keyspan.Proofs.Store.Refinement
import Keyspan.Proofs.Txn.Visibility
import Keyspan.Session.Basic

set_option autoImplicit false
set_option relaxedAutoImplicit false

namespace Keyspan

/-- What happens when a write succeeds. A write on its own takes the number that is handed out next. -/
def Event.ofWrite (txn : Option Transaction) (next : TxnId) (key : Key) (value : Option Bytes) :
    Log :=
  match txn with
  | some txn => [.wrote txn.id key.encode value]
  | none => [.moved next .committed, .wrote next key.encode value, .began next]

private theorem run_tryCatch_ok {ε σ α : Type} {x : EStateM ε σ α} {s s' : σ} {a : α}
    (hx : x.run s = .ok a s') (handler : ε → EStateM ε σ α) :
    (tryCatch x handler).run s = .ok a s' := by
  show EStateM.tryCatch x handler s = _
  have hx' : x s = .ok a s' := hx
  delta EStateM.tryCatch
  rw [hx']

namespace Table

/-- The table holds what the log says, under keys that pass the format's check. -/
structure Follows (t : Table) (f : Format) (log : Log) : Prop where
  format : t.format = f
  valid : log.Valid
  store : t.store.Refines (.typed f) log.appends
  ledger : t.ledger.Agrees log
  keys : ∀ a ∈ log.appends, ∃ key, f.check key = .ok () ∧ a.1 = key.encode

private theorem follows_empty (f : Format) (paging : Paging) : (empty f paging).Follows f [] where
  format := rfl
  valid := trivial
  store := Store.refines_empty _ _
  ledger := Ledger.agrees_empty
  keys := nofun

variable {t : Table} {f : Format} {log : Log}

theorem Follows.begin (h : t.Follows f log) (hroom : log.begun + 2 < 2 ^ 64)
    (ignorePrepare : Bool) :
    ({ t with ledger := (t.ledger.begin ignorePrepare).2 } : Table).Follows f
      (.began t.ledger.nextId :: log) where
  format := h.format
  valid := ⟨h.ledger.state?_nextId, h.valid⟩
  store := by
    rw [Log.appends_cons]
    simpa [Event.append?] using h.store
  ledger := h.ledger.begin hroom ignorePrepare
  keys := by
    rw [Log.appends_cons]
    simpa [Event.append?] using h.keys

private theorem Follows.move (h : t.Follows f log) {txn : Transaction} {target : TxnState}
    {l : Ledger}
    (hmove : t.ledger.move txn target = .ok l) :
    ({ t with ledger := l } : Table).Follows f (.moved txn.id target :: log) := by
  obtain ⟨id, hid, hallowed, hl⟩ := h.ledger.move hmove
  have htxn : txn.id = id := by
    rw [Transaction.id, hid]
    rfl
  rw [htxn]
  refine ⟨h.format, ⟨hallowed, h.valid⟩, ?_, hl, ?_⟩
  · rw [Log.appends_cons]
    simpa [Event.append?] using h.store
  · rw [Log.appends_cons]
    simpa [Event.append?] using h.keys

private theorem Follows.append (h : t.Follows f log) {key : Key} (hkey : f.check key = .ok ())
    {id : TxnId} (hactive : log.state? id = some .active) (value : Option Bytes) :
    ∃ s, (onStore (Store.append key.encode ⟨id, value⟩)).run t = .ok () { t with store := s } ∧
      ({ t with store := s } : Table).Follows f (.wrote id key.encode value :: log) := by
  obtain ⟨s, hrun, -, hs⟩ := h.store.append key.encode ⟨id, value⟩
  have happends : Log.appends (.wrote id key.encode value :: log) =
      log.appends ++ [(key.encode, ⟨id, value⟩)] := Log.appends_cons _ _
  refine ⟨s, ?_, h.format, ⟨hactive, h.valid⟩, ?_, ⟨?_, ?_, ?_, ?_⟩, ?_⟩
  · show onStore (Store.append key.encode ⟨id, value⟩) t = _
    rw [onStore, hrun]
  · rw [happends]
    exact hs
  · exact h.ledger.issued
  · exact h.ledger.running
  · exact h.ledger.aborted
  · exact h.ledger.next
  · rw [happends]
    intro a ha
    rcases List.mem_append.1 ha with ha | ha
    · exact h.keys a ha
    · obtain rfl := List.mem_singleton.1 ha
      exact ⟨key, hkey, rfl⟩

theorem Follows.writeIn (h : t.Follows f log) {key : Key} (hkey : f.check key = .ok ())
    (txn : Transaction) (value : Option Bytes) :
    ((∃ e, (writeIn txn key.encode value).run t = .error e t) ∧
        (txn.id? = none ∨ t.ledger.state txn ≠ .active)) ∨
      log.state? txn.id = some .active ∧ txn.id? = some txn.id ∧
        ∃ s, (writeIn txn key.encode value).run t = .ok () { t with store := s } ∧
          ({ t with store := s } : Table).Follows f (.wrote txn.id key.encode value :: log) := by
  simp only [Table.writeIn, EStateM.run_bind, EStateM.run_get]
  by_cases hno : txn.id = 0 ∨ t.ledger.state txn ≠ .active
  · left
    rw [if_pos hno]
    refine ⟨⟨_, rfl⟩, ?_⟩
    cases hid : txn.id? with
    | none => exact Or.inl rfl
    | some id =>
      refine Or.inr fun hstate => ?_
      rcases hno with h0 | hno
      · rw [Ledger.state, hid] at hstate
        have hzero : txn.id = id := by
          rw [Transaction.id, hid]
          rfl
        rw [hzero] at h0
        subst h0
        cases hstate
      · exact hno hstate
  · right
    rw [if_neg hno]
    have hstate : t.ledger.state txn = .active := Decidable.byContradiction fun hs =>
      hno (Or.inr hs)
    have h0 : txn.id ≠ 0 := fun h0 => hno (Or.inl h0)
    cases hid : txn.id? with
    | none => exact absurd (by rw [Transaction.id, hid]; rfl) h0
    | some id =>
      have hsame : txn.id = id := by
        rw [Transaction.id, hid]
        rfl
      rw [Ledger.state, hid] at hstate
      rw [hsame]
      have hactive := h.ledger.state?_eq hstate nofun
      obtain ⟨s, hrun, hs⟩ := h.append hkey hactive value
      exact ⟨hactive, rfl, s, hrun, hs⟩

theorem Follows.writeAlone (h : t.Follows f log) (hroom : log.begun + 2 < 2 ^ 64) {key : Key}
    (hkey : f.check key = .ok ()) (value : Option Bytes) :
    ∃ s, let u : Table :=
        { t with ledger := (t.ledger.begin false).2.enter t.ledger.nextId .committed, store := s }
      (writeAlone key.encode value).run t = .ok () u ∧
        u.Follows f (Event.ofWrite none t.ledger.nextId key value ++ log) := by
  let id := t.ledger.nextId
  let txn := (t.ledger.begin false).1
  let t₁ : Table := { t with ledger := (t.ledger.begin false).2 }
  have hbegun : t₁.Follows f (.began id :: log) := h.begin hroom false
  have hactive : Log.state? (.began id :: log) txn.id = some .active := if_pos rfl
  obtain ⟨s, happend, hwritten⟩ := hbegun.append hkey hactive value
  have hstate : t₁.ledger.stateOf id = .active := hwritten.ledger.stateOf_eq (if_pos rfl)
  have hmove : t₁.ledger.move txn .committed = .ok (t₁.ledger.enter id .committed) :=
    if_pos (by rw [hstate]; rfl)
  refine ⟨s, ?_, hwritten.move hmove⟩
  have hbegin : (Table.begin false).run t = .ok txn t₁ := rfl
  have hmoved : (Table.move txn .committed).run { t₁ with store := s } =
      .ok () { t₁ with ledger := t₁.ledger.enter id .committed, store := s } := by
    simp only [Table.move, EStateM.run_bind, EStateM.run_get, hmove, EStateM.run_set]
  rw [Table.writeAlone, EStateM.run_bind, hbegin]
  dsimp only
  rw [EStateM.run_bind, run_tryCatch_ok happend]
  exact hmoved

/-- The key does not fit the format, or the transaction is implicit or not active. -/
def Refuses (t : Table) (writer : Option Transaction) (key : Key) : Prop :=
  t.format.check key ≠ .ok () ∨
    ∃ txn, writer = some txn ∧ (txn.id? = none ∨ t.ledger.state txn ≠ .active)

/-- A write is refused and changes nothing, or it adds an update to the store: in a transaction that may
write, or with a number of its own. -/
theorem Follows.write_cases (h : t.Follows f log) (hroom : log.begun + 2 < 2 ^ 64)
    (writer : Option Transaction) (key : Key) (value : Option Bytes) :
    ((∃ e, (write writer key value).run t = .error e t) ∧ t.Refuses writer key) ∨
      ¬ t.Refuses writer key ∧ f.check key = .ok () ∧
        ∃ s ledger, let u : Table := { t with ledger := ledger, store := s }
          (write writer key value).run t = .ok () u ∧
          u.Follows f (Event.ofWrite writer t.ledger.nextId key value ++ log) ∧
          match writer with
          | some txn => ledger = t.ledger ∧ log.state? txn.id = some .active ∧ txn.id? = some txn.id
          | none => ledger = (t.ledger.begin false).2.enter t.ledger.nextId .committed := by
  have hformat := h.format
  by_cases hkey : f.check key = .ok ()
  · have hpack : t.format.packKey key = .ok key.encode := by
      rw [hformat, Format.packKey_eq_ok_iff]
      exact ⟨hkey, rfl⟩
    cases writer with
    | none =>
      right
      obtain ⟨s, hrun, hs⟩ := h.writeAlone hroom hkey value
      refine ⟨?_, hkey, s, _, ?_, hs, rfl⟩
      · rintro (hno | ⟨txn, hno, -⟩)
        · exact hno (hformat ▸ hkey)
        · cases hno
      · simp only [write, EStateM.run_bind, EStateM.run_get, hpack]
        exact hrun
    | some txn =>
      rcases h.writeIn hkey txn value with ⟨⟨e, hrun⟩, hno⟩ | ⟨hactive, hid, s, hrun, hs⟩
      · refine Or.inl ⟨⟨e, ?_⟩, Or.inr ⟨txn, rfl, hno⟩⟩
        simp only [write, EStateM.run_bind, EStateM.run_get, hpack]
        exact hrun
      · refine Or.inr ⟨?_, hkey, s, t.ledger, ?_, hs, rfl, hactive, hid⟩
        · rintro (hno | ⟨txn', htxn, hno⟩)
          · exact hno (hformat ▸ hkey)
          · obtain rfl := Option.some.inj htxn
            rcases hno with hno | hno
            · rw [hid] at hno
              cases hno
            · refine hno ?_
              rw [Ledger.state, hid]
              exact h.ledger.stateOf_eq hactive
        · simp only [write, EStateM.run_bind, EStateM.run_get, hpack]
          exact hrun
  · left
    refine ⟨?_, Or.inl (hformat ▸ hkey)⟩
    cases hpack : t.format.packKey key with
    | ok packed =>
      rw [hformat] at hpack
      exact absurd (Format.packKey_eq_ok_iff.1 hpack).1 hkey
    | error e =>
      refine ⟨e, ?_⟩
      simp only [write, EStateM.run_bind, EStateM.run_get, hpack]
      rfl

theorem Follows.write (h : t.Follows f log) (hroom : log.begun + 2 < 2 ^ 64)
    (txn : Option Transaction) (key : Key) (value : Option Bytes) :
    (∃ e, (write txn key value).run t = .error e t) ∨
      ∃ t', (write txn key value).run t = .ok () t' ∧
        t'.Follows f (Event.ofWrite txn t.ledger.nextId key value ++ log) := by
  rcases h.write_cases hroom txn key value with ⟨hrefused, -⟩ | ⟨-, -, s, l, hrun, hs, -⟩
  · exact Or.inl hrefused
  · exact Or.inr ⟨_, hrun, hs⟩

end Table

/-- The transaction was opened at some point of the log: a numbered one when it began. -/
def Transaction.Opened (txn : Transaction) (log : Log) : Prop :=
  match txn.id? with
  | some id => (log.state? id).isSome ∧ txn.snapshot.Of (log.before id)
  | none => ∃ since base, log = since ++ base ∧ txn.snapshot.Of base

theorem Transaction.Opened.append {txn : Transaction} {more log : Log} (h : txn.Opened log)
    (hv : Log.Valid (more ++ log)) : txn.Opened (more ++ log) := by
  unfold Transaction.Opened at h ⊢
  revert h
  cases txn.id? with
  | some id =>
    rintro ⟨hknown, hsnap⟩
    refine ⟨Log.isSome_state?_append hknown more, ?_⟩
    rw [Log.before_append hv hknown]
    exact hsnap
  | none =>
    rintro ⟨since, base, rfl, hsnap⟩
    exact ⟨more ++ since, base, (List.append_assoc _ _ _).symm, hsnap⟩

theorem Transaction.Opened.isSome_state? {txn : Transaction} {log : Log} (h : txn.Opened log)
    {id : TxnId} (hid : txn.id? = some id) : (log.state? id).isSome := by
  rw [Transaction.Opened, hid] at h
  exact h.1

/-- A call on transactions, or a write. -/
def Call.isEventful : Call → Bool
  | txn _ => true
  | insert _ _ _ => true
  | remove _ _ => true
  | _ => false

namespace Session

/-- A session on a table without records. -/
def fresh (f : Format) (paging : Paging) : Session where
  table := .empty f paging

def after (s : Session) (calls : List Call) : Session :=
  calls.foldl (fun s call => (s.run call).2) s

theorem after_append (s : Session) (front back : List Call) :
    s.after (front ++ back) = (s.after front).after back :=
  List.foldl_append

def written (s : Session) (txn : Option Nat) (key : Key) (value : Option Bytes) : Log :=
  match s.txn? txn with
  | some txn => Event.ofWrite txn s.table.ledger.nextId key value
  | none => []

def events (s : Session) (call : Call) : Log :=
  match call, (s.run call).1 with
  | .txn (.begin _), .begun id => [.began id]
  | .txn (.move txn target), .done => (s.txns[txn]?.map fun t => Event.moved t.id target).toList
  | .insert txn key value, .done => s.written txn key (some value)
  | .remove txn key, .done => s.written txn key none
  | _, _ => []

def log (s : Session) : List Call → Log
  | [] => []
  | call :: calls => (s.run call).2.log calls ++ s.events call

structure Follows (s : Session) (f : Format) (log : Log) : Prop where
  table : s.table.Follows f log
  opened : ∀ txn ∈ s.txns, txn.Opened log
  distinct : s.txns.Pairwise fun a b => ∀ id, a.id? = some id → b.id? ≠ some id

theorem follows_fresh (f : Format) (paging : Paging) : (fresh f paging).Follows f [] :=
  ⟨Table.follows_empty f paging, nofun, List.Pairwise.nil⟩

variable {s : Session} {f : Format} {log : Log}

private theorem Follows.write (h : s.Follows f log) (hroom : log.begun + 2 < 2 ^ 64)
    (txn : Option Nat)
    (key : Key) (value : Option Bytes) :
    ((s.write txn key value).1 ≠ .done ∧ (s.write txn key value).2 = s) ∨
      ((s.write txn key value).1 = .done ∧
        (s.write txn key value).2.Follows f (s.written txn key value ++ log)) := by
  rw [Session.write, written]
  cases s.txn? txn with
  | none => exact Or.inl ⟨nofun, rfl⟩
  | some txn =>
    rcases h.table.write hroom txn key value with ⟨e, hrun⟩ | ⟨t, hrun, ht⟩
    · left
      simp only [hrun]
      exact ⟨nofun, trivial⟩
    · right
      simp only [hrun]
      exact ⟨trivial, ht, fun txn htxn => (h.opened txn htxn).append ht.valid, h.distinct⟩

theorem Follows.openTxn (h : s.Follows f log) (since : Log) {t : Table}
    (ht : t.Follows f (since ++ log)) {txn : Transaction} (hopened : txn.Opened (since ++ log))
    (hnew : ∀ id, txn.id? = some id → log.state? id = none) :
    Follows { s with table := t, txns := s.txns ++ [txn] } f (since ++ log) := by
  refine ⟨ht, ?_, ?_⟩
  · intro a ha
    rcases List.mem_append.1 ha with ha | ha
    · exact (h.opened a ha).append ht.valid
    · obtain rfl := List.mem_singleton.1 ha
      exact hopened
  · refine List.pairwise_append.2 ⟨h.distinct, List.pairwise_singleton _ _, ?_⟩
    intro a ha b hb id hid hid'
    obtain rfl := List.mem_singleton.1 hb
    have hknown := (h.opened a ha).isSome_state? hid
    rw [hnew id hid'] at hknown
    cases hknown

theorem Follows.txn (h : s.Follows f log) (hroom : log.begun + 2 < 2 ^ 64) (call : TxnCall) :
    (s.run (.txn call)).2.Follows f (s.events (.txn call) ++ log) := by
  cases call with
  | begin ignorePrepare =>
    have ht := h.table.begin hroom ignorePrepare
    refine h.openTxn [.began s.table.ledger.nextId] ht ?_ ?_
    · let id := s.table.ledger.nextId
      have hknown : Log.state? (.began id :: log) id = some .active := if_pos rfl
      have hbefore : Log.before id (.began id :: log) = log := if_pos rfl
      show (Log.state? (.began id :: log) id).isSome ∧
        s.table.ledger.snapshot.Of (Log.before id (.began id :: log))
      rw [hknown, hbefore]
      exact ⟨rfl, h.table.ledger.snapshot⟩
    · intro id hnext
      obtain rfl : s.table.ledger.nextId = id := Option.some.inj hnext
      exact h.table.ledger.state?_nextId
  | implicit =>
    refine h.openTxn [] h.table ?_ ?_
    · exact ⟨[], log, rfl, h.table.ledger.snapshot⟩
    · intro id hnone
      cases hnone
  | move i target =>
    cases htxn : s.txns[i]? with
    | none =>
      have hrun : s.run (.txn (.move i target)) = (.unknownHandle, s) := by
        simp only [run, TxnCall.run, htxn]
      simp only [events, hrun]
      exact h
    | some txn =>
      cases hmove : s.table.ledger.move txn target with
      | error e =>
        have hrun : s.run (.txn (.move i target)) = (.failed e, s) := by
          simp only [run, TxnCall.run, htxn, hmove]
        simp only [events, hrun]
        exact h
      | ok l =>
        have hrun : s.run (.txn (.move i target)) = (.done, { s with table.ledger := l }) := by
          simp only [run, TxnCall.run, htxn, hmove]
        have ht := h.table.move hmove
        simp only [events, hrun, htxn]
        exact ⟨ht, fun txn htxn => (h.opened txn htxn).append ht.valid, h.distinct⟩
  | info i => exact h
  | stateOf id => exact h
  | sees i id => exact h
  | classify reader writer => exact h
  | tracked => exact h

theorem Follows.eventful (h : s.Follows f log) (hroom : log.begun + 2 < 2 ^ 64) {call : Call}
    (hcall : call.isEventful = true) : (s.run call).2.Follows f (s.events call ++ log) := by
  have hwrite : ∀ txn key value, s.run call = s.write txn key value →
      (s.events call = match (s.run call).1 with
        | .done => s.written txn key value
        | _ => []) →
      (s.run call).2.Follows f (s.events call ++ log) := by
    intro txn key value hrun hevents
    rw [hevents, hrun]
    rcases h.write hroom txn key value with ⟨hno, hsame⟩ | ⟨hdone, hnext⟩
    · rw [hsame]
      split
      next hdone => exact absurd hdone hno
      next => exact h
    · rw [hdone]
      exact hnext
  cases call with
  | txn call => exact h.txn hroom call
  | insert txn key value =>
    refine hwrite txn key (some value) rfl ?_
    unfold events
    cases (s.run (.insert txn key value)).1 <;> rfl
  | remove txn key =>
    refine hwrite txn key none rfl ?_
    unfold events
    cases (s.run (.remove txn key)).1 <;> rfl
  | store call => cases hcall
  | stats => cases hcall
  | openCursor options => cases hcall
  | closeCursor i => cases hcall
  | setTxn i txn => cases hcall
  | cursor i call => cases hcall

end Session

end Keyspan
