import Mathlib.Data.List.Induction
import Mathlib.Data.List.Nodup
import Keyspan.Proofs.Txn.Ledger
import Keyspan.Session.TxnCall

/-!
A desk under any run of transaction calls.

The state of a transaction is kept twice. The transaction keeps it for itself, where each legal move
replaces it; the ledger keeps who runs and who aborted, and takes the rest for committed. The records
here are the first of the two, followed call by call without a look at the ledger, and they never fall
out of step with it.
-/

set_option autoImplicit false
set_option relaxedAutoImplicit false

namespace Keyspan

/-- The ways that the state of a transaction may go. -/
inductive TxnState.Leads : TxnState → TxnState → Prop
  | prepare : Leads .active .prepared
  | commit {st : TxnState} (running : st = .active ∨ st = .prepared) : Leads st .committed
  | abort {st : TxnState} (running : st = .active ∨ st = .prepared) : Leads st .aborted

private theorem TxnState.canMove_iff_leads {st target : TxnState} :
    st.canMove target = true ↔ st.Leads target := by
  constructor
  · intro h
    cases st with
    | active =>
      cases target with
      | active => cases h
      | prepared => exact .prepare
      | committed => exact .commit (Or.inl rfl)
      | aborted => exact .abort (Or.inl rfl)
    | prepared =>
      cases target with
      | active => cases h
      | prepared => cases h
      | committed => exact .commit (Or.inr rfl)
      | aborted => exact .abort (Or.inr rfl)
    | committed => cases h
    | aborted => cases h
  · intro h
    cases h with
    | prepare => rfl
    | commit running => rcases running with rfl | rfl <;> rfl
    | abort running => rcases running with rfl | rfl <;> rfl

theorem TxnState.canMove_active (st : TxnState) : st.canMove .active = false := by
  cases st <;> rfl

namespace Ledger

private theorem length_finish {running : List (TxnId × Phase)} {id : TxnId} {ph : Phase}
    (hnodup : (running.map Prod.fst).Nodup) (h : running.lookup id = some ph) :
    (running.filter (·.1 ≠ id)).length + 1 = running.length := by
  induction running with
  | nil => cases h
  | cons p running ih =>
    obtain ⟨i, ph'⟩ := p
    rw [List.map_cons, List.nodup_cons] at hnodup
    by_cases hi : id = i
    · subst hi
      have hrest : running.filter (·.1 ≠ id) = running := by
        rw [List.filter_eq_self]
        intro q hq
        have hne : q.1 ≠ id := fun he => hnodup.1 (he ▸ List.mem_map.2 ⟨q, hq, rfl⟩)
        simpa using hne
      rw [List.filter_cons_of_neg (by simp), hrest, List.length_cons]
    · have hb : (id == i) = false := by simpa using hi
      rw [List.lookup_cons, hb] at h
      have hkeep : i ≠ id := fun he => hi he.symm
      rw [List.filter_cons_of_pos (by simpa using hkeep), List.length_cons, ih hnodup.2 h,
        List.length_cons]

def Single (l : Ledger) : Prop :=
  (l.running.map Prod.fst).Nodup

variable {l : Ledger} {log : Log} {id : TxnId} {target : TxnState}

private theorem Single.begin (h : l.Single) (hl : l.Agrees log) (ignorePrepare : Bool) :
    (l.begin ignorePrepare).2.Single := by
  show (l.nextId :: l.running.map Prod.fst).Nodup
  rw [List.nodup_cons]
  refine ⟨fun hmem => ?_, h⟩
  obtain ⟨p, hp, hid⟩ := List.mem_map.1 hmem
  have hsome : (l.running.lookup l.nextId).isSome := by
    rw [List.lookup_isSome_iff]
    exact ⟨p, hp, by simpa using hid.symm⟩
  obtain ⟨ph, hph⟩ := Option.isSome_iff_exists.1 hsome
  have hstate := (hl.running l.nextId ph).1 hph
  rw [hl.state?_nextId] at hstate
  cases hstate

private theorem Single.enter (h : l.Single) (id : TxnId) (target : TxnState) :
    (l.enter id target).Single := by
  cases target with
  | active => exact h
  | prepared =>
    show ((l.running.map _).map Prod.fst).Nodup
    rw [List.map_map]
    exact h
  | committed => exact h.sublist (List.filter_sublist.map _)
  | aborted => exact h.sublist (List.filter_sublist.map _)

theorem tracked_enter (h : l.Single) (hl : l.Agrees log)
    (hmove : (l.stateOf id).canMove target = true) :
    (l.enter id target).tracked + (if target = .committed then 1 else 0) = l.tracked := by
  have hrun := TxnState.isRunning_of_canMove hmove
  obtain ⟨ph, hph⟩ := Phase.exists_state hrun
  have hlook : l.running.lookup id = some ph := by
    refine (hl.running id ph).2 ?_
    rw [hph]
    refine hl.state?_eq rfl fun he => ?_
    rw [he] at hrun
    cases hrun
  have hfinish := length_finish h hlook
  cases target with
  | active =>
    rw [TxnState.canMove_active] at hmove
    cases hmove
  | prepared =>
    show (l.running.map _).length + l.aborted.length + 0 = l.running.length + l.aborted.length
    rw [List.length_map]
    omega
  | committed =>
    show (l.running.filter (·.1 ≠ id)).length + l.aborted.length + 1 =
      l.running.length + l.aborted.length
    omega
  | aborted =>
    show (l.running.filter (·.1 ≠ id)).length + (l.aborted.length + 1) + 0 =
      l.running.length + l.aborted.length
    omega

end Ledger

def TxnId.following (n : Nat) : TxnId :=
  UInt64.ofNat (n + 1)

private theorem TxnId.toNat_following {n : Nat} (h : n + 1 < 2 ^ 64) : (following n).toNat = n + 1 :=
  UInt64.toNat_ofNat_of_lt' h

namespace TxnCall

def isBegin : TxnCall → Bool
  | begin _ => true
  | _ => false

/-- What a call makes of the states that the opened transactions keep of themselves. Implicit ones
keep none. A state is replaced where it can move, whatever the ledger says. -/
def record (states : List (Option TxnState)) : TxnCall → List (Option TxnState)
  | begin _ => states ++ [some .active]
  | implicit => states ++ [none]
  | move t target =>
    match states[t]? with
    | some (some st) => if st.canMove target then states.set t (some target) else states
    | _ => states
  | _ => states

end TxnCall

namespace Desk

def after (calls : List TxnCall) : Desk :=
  calls.foldl (fun d call => (call.run d).2) {}

/-- The state that each opened transaction keeps of itself after some calls. -/
def records (calls : List TxnCall) : List (Option TxnState) :=
  calls.foldl TxnCall.record []

/-- How many numbers some calls hand out. -/
def begun (calls : List TxnCall) : Nat :=
  calls.countP TxnCall.isBegin

private theorem after_append_single (calls : List TxnCall) (call : TxnCall) :
    after (calls ++ [call]) = (call.run (after calls)).2 := by
  rw [after, List.foldl_append]
  rfl

private theorem records_append_single (calls : List TxnCall) (call : TxnCall) :
    records (calls ++ [call]) = call.record (records calls) := by
  rw [records, List.foldl_append]
  rfl

private theorem begun_append_single (calls : List TxnCall) (call : TxnCall) :
    begun (calls ++ [call]) = begun calls + if call.isBegin then 1 else 0 := by
  rw [begun, List.countP_append, List.countP_singleton]
  rfl

structure Follows (d : Desk) (states : List (Option TxnState)) (log : Log) : Prop where
  agrees : d.ledger.Agrees log
  single : d.ledger.Single
  recorded : states = d.opened.map fun txn => txn.id?.bind log.state?
  numbered : d.opened.filterMap Transaction.id? = (List.range log.begun).map TxnId.following
  tracked : d.ledger.tracked + states.count (some .committed) = log.begun

variable {d : Desk} {states : List (Option TxnState)} {log : Log} {t : Nat} {txn : Transaction}
  {id : TxnId} {target : TxnState}

private theorem follows_empty : Follows {} [] [] :=
  ⟨Ledger.agrees_empty, List.nodup_nil, rfl, rfl, rfl⟩

theorem Follows.exists_state? (h : d.Follows states log) (hroom : log.begun + 1 < 2 ^ 64)
    (hmem : txn ∈ d.opened) (hid : txn.id? = some id) : ∃ st, log.state? id = some st := by
  have hin : id ∈ (List.range log.begun).map TxnId.following := by
    rw [← h.numbered]
    exact List.mem_filterMap.2 ⟨txn, hmem, hid⟩
  obtain ⟨n, hn, rfl⟩ := List.mem_map.1 hin
  have hlt : n < log.begun := List.mem_range.1 hn
  have hnat : (TxnId.following n).toNat = n + 1 := TxnId.toNat_following (by omega)
  refine Option.isSome_iff_exists.1 ((h.agrees.issued _).2 ⟨fun h0 => ?_, ?_⟩)
  · rw [h0] at hnat
    cases hnat
  · rw [UInt64.lt_iff_toNat_lt, hnat, h.agrees.next]
    omega

theorem Follows.eq_of_id? (h : d.Follows states log) (hroom : log.begun + 1 < 2 ^ 64) {t' : Nat}
    {txn' : Transaction} (ht : d.opened[t]? = some txn) (ht' : d.opened[t']? = some txn')
    (hid : txn.id? = some id) (hid' : txn'.id? = some id) : t = t' := by
  have hinj : ∀ n ∈ List.range log.begun, ∀ m ∈ List.range log.begun,
      TxnId.following n = TxnId.following m → n = m := by
    intro n hn m hm he
    have hnat := congrArg UInt64.toNat he
    rw [TxnId.toNat_following (by have := List.mem_range.1 hn; omega),
      TxnId.toNat_following (by have := List.mem_range.1 hm; omega)] at hnat
    omega
  have hnodup : (d.opened.filterMap Transaction.id?).Nodup := by
    rw [h.numbered]
    exact List.Nodup.map_on hinj List.nodup_range
  have hpair : d.opened.Pairwise fun a b => ∀ i, a.id? = some i → ∀ j, b.id? = some j → i ≠ j :=
    List.pairwise_filterMap.1 hnodup
  rw [List.pairwise_iff_getElem] at hpair
  obtain ⟨hlt, rfl⟩ := List.getElem?_eq_some_iff.1 ht
  obtain ⟨hlt', rfl⟩ := List.getElem?_eq_some_iff.1 ht'
  rcases Nat.lt_trichotomy t t' with hcmp | rfl | hcmp
  · exact absurd rfl (hpair t t' hlt hlt' hcmp id hid id hid')
  · rfl
  · exact absurd rfl (hpair t' t hlt' hlt hcmp id hid' id hid)

theorem Follows.exists_record (h : d.Follows states log) (hroom : log.begun + 1 < 2 ^ 64)
    (ht : d.opened[t]? = some txn) (hid : txn.id? = some id) :
    ∃ st, states[t]? = some (some st) ∧ log.state? id = some st ∧ d.ledger.stateOf id = st := by
  obtain ⟨st, hst⟩ := h.exists_state? hroom (List.mem_of_getElem? ht) hid
  refine ⟨st, ?_, hst, h.agrees.stateOf_eq hst⟩
  rw [h.recorded, List.getElem?_map, ht]
  exact congrArg some ((congrArg (Option.bind · log.state?) hid).trans hst)

theorem Follows.record_implicit (h : d.Follows states log) (ht : d.opened[t]? = some txn)
    (hid : txn.id? = none) : states[t]? = some none := by
  rw [h.recorded, List.getElem?_map, ht]
  exact congrArg some (congrArg (Option.bind · log.state?) hid)

private theorem run_move_unknown (ht : d.opened[t]? = none) :
    (TxnCall.move t target).run d = (.unknownHandle, d) := by
  rw [TxnCall.run, ht]

private theorem run_move_implicit (ht : d.opened[t]? = some txn) (hid : txn.id? = none) :
    (TxnCall.move t target).run d = (.failed (.invalidArgument .implicitMove), d) := by
  rw [TxnCall.run, ht]
  dsimp only
  rw [Ledger.move, hid]

private theorem run_move_legal (ht : d.opened[t]? = some txn) (hid : txn.id? = some id)
    (hmove : (d.ledger.stateOf id).canMove target = true) :
    (TxnCall.move t target).run d = (.done, { d with ledger := d.ledger.enter id target }) := by
  rw [TxnCall.run, ht]
  dsimp only
  rw [Ledger.move, hid]
  dsimp only
  rw [if_pos hmove]

private theorem run_move_illegal (ht : d.opened[t]? = some txn) (hid : txn.id? = some id)
    (hmove : (d.ledger.stateOf id).canMove target = false) :
    (TxnCall.move t target).run d =
      (.failed (.invalidArgument (.illegalMove id (d.ledger.stateOf id) target)), d) := by
  rw [TxnCall.run, ht]
  dsimp only
  rw [Ledger.move, hid]
  dsimp only
  rw [if_neg (by rw [hmove]; exact Bool.false_ne_true)]

private theorem record_move (hst : ∃ st, states[t]? = some (some st) ∧ st.canMove target = true) :
    (TxnCall.move t target).record states = states.set t (some target) := by
  obtain ⟨st, hst, hmove⟩ := hst
  rw [TxnCall.record, hst]
  exact if_pos hmove

private theorem record_move_of_not
    (hst : ∀ st, states[t]? = some (some st) → st.canMove target = false) :
    (TxnCall.move t target).record states = states := by
  rw [TxnCall.record]
  split
  next st h => exact if_neg (by rw [hst st h]; exact Bool.false_ne_true)
  next => rfl

private theorem Follows.begin (h : d.Follows states log) (hroom : log.begun + 2 < 2 ^ 64)
    (ignorePrepare : Bool) :
    (Desk.mk (d.ledger.begin ignorePrepare).2 (d.opened ++ [(d.ledger.begin ignorePrepare).1])).Follows
      (states ++ [some .active]) (.began d.ledger.nextId :: log) := by
  have hnext : d.ledger.nextId = TxnId.following log.begun := by
    refine UInt64.toNat_inj.1 ?_
    rw [h.agrees.next, TxnId.toNat_following (by omega)]
  refine ⟨h.agrees.begin hroom ignorePrepare, h.single.begin h.agrees ignorePrepare, ?_, ?_, ?_⟩
  · rw [List.map_append, h.recorded]
    refine congrArg₂ (· ++ ·) (List.map_congr_left fun txn hmem => ?_) ?_
    · cases hid : txn.id? with
      | none => rfl
      | some id =>
        have hne : d.ledger.nextId ≠ id := by
          rintro rfl
          obtain ⟨st, hst⟩ := h.exists_state? (by omega) hmem hid
          rw [h.agrees.state?_nextId] at hst
          cases hst
        show log.state? id = Log.state? (.began d.ledger.nextId :: log) id
        rw [Log.state?, if_neg hne]
    · show [some TxnState.active] = [Log.state? (.began d.ledger.nextId :: log) d.ledger.nextId]
      rw [Log.state?, if_pos rfl]
  · show (d.opened ++ [_]).filterMap Transaction.id? = (List.range (log.begun + 1)).map _
    rw [List.filterMap_append, h.numbered, List.range_succ, List.map_append, List.map_singleton,
      ← hnext]
    rfl
  · have htracked := h.tracked
    show d.ledger.running.length + 1 + d.ledger.aborted.length +
      (states ++ [some TxnState.active]).count (some .committed) = log.begun + 1
    rw [Ledger.tracked] at htracked
    rw [List.count_append]
    show _ + (_ + 0) = _
    omega

private theorem Follows.implicit (h : d.Follows states log) :
    (Desk.mk d.ledger (d.opened ++ [d.ledger.implicit])).Follows (states ++ [none]) log := by
  refine ⟨h.agrees, h.single, ?_, ?_, ?_⟩
  · rw [List.map_append, h.recorded]
    rfl
  · rw [List.filterMap_append, h.numbered]
    exact List.append_nil _
  · rw [List.count_append]
    exact h.tracked

theorem Follows.recorded_moved (h : d.Follows states log) (hroom : log.begun + 1 < 2 ^ 64)
    (ht : d.opened[t]? = some txn) (hid : txn.id? = some id) :
    states.set t (some target) =
      d.opened.map fun txn => txn.id?.bind (Log.state? (.moved id target :: log)) := by
  apply List.ext_getElem?
  intro i
  rw [h.recorded, List.getElem?_set, List.getElem?_map, List.getElem?_map, List.length_map]
  by_cases hi : t = i
  · subst hi
    rw [if_pos rfl, if_pos (List.getElem?_eq_some_iff.1 ht).1, ht]
    show some (some target) = some (txn.id?.bind _)
    rw [hid]
    show _ = some (Log.state? (.moved id target :: log) id)
    rw [Log.state?, if_pos rfl]
  · rw [if_neg hi]
    cases hother : d.opened[i]? with
    | none => rfl
    | some other =>
      show some (other.id?.bind log.state?) = some (other.id?.bind (Log.state? (_ :: log)))
      refine congrArg some ?_
      cases hid' : other.id? with
      | none => rfl
      | some id' =>
        have hne : id ≠ id' := by
          rintro rfl
          exact hi (h.eq_of_id? hroom ht hother hid hid')
        show log.state? id' = Log.state? (.moved id target :: log) id'
        rw [Log.state?, if_neg hne]

private theorem Follows.moved (h : d.Follows states log) (hroom : log.begun + 1 < 2 ^ 64)
    (ht : d.opened[t]? = some txn) (hid : txn.id? = some id)
    (hmove : (d.ledger.stateOf id).canMove target = true) :
    (Desk.mk (d.ledger.enter id target) d.opened).Follows (states.set t (some target))
      (.moved id target :: log) := by
  obtain ⟨st, hrec, -, hst⟩ := h.exists_record hroom ht hid
  have hok : d.ledger.move txn target = .ok (d.ledger.enter id target) := by
    rw [Ledger.move, hid]
    exact if_pos hmove
  have hagrees : (d.ledger.enter id target).Agrees (.moved id target :: log) := by
    obtain ⟨id', hid', -, hagrees⟩ := h.agrees.move hok
    rw [hid] at hid'
    obtain rfl := Option.some.inj hid'
    exact hagrees
  refine ⟨hagrees, h.single.enter id target, h.recorded_moved hroom ht hid, h.numbered, ?_⟩
  have htracked := h.tracked
  have henter := Ledger.tracked_enter h.single h.agrees hmove
  obtain ⟨hlt, hget⟩ := List.getElem?_eq_some_iff.1 hrec
  have hold : (states[t] == some TxnState.committed) = false := by
    rw [hget, ← hst]
    have hrun := TxnState.isRunning_of_canMove hmove
    cases hs : d.ledger.stateOf id <;> rw [hs] at hrun <;> first | rfl | cases hrun
  show (d.ledger.enter id target).tracked + _ = log.begun
  rw [List.count_set hlt, hold]
  cases target <;> simp at henter ⊢ <;> omega

theorem Follows.run (h : d.Follows states log) (call : TxnCall)
    (hroom : log.begun + (if call.isBegin then 1 else 0) + 1 < 2 ^ 64) :
    ∃ log', (call.run d).2.Follows (call.record states) log' ∧
      log'.begun = log.begun + if call.isBegin then 1 else 0 := by
  cases call with
  | begin ignorePrepare => exact ⟨_, h.begin hroom ignorePrepare, rfl⟩
  | implicit => exact ⟨log, h.implicit, rfl⟩
  | move t target =>
    cases ht : d.opened[t]? with
    | none =>
      have hrec : states[t]? = none := by
        rw [h.recorded, List.getElem?_map, ht]
        rfl
      rw [run_move_unknown ht, record_move_of_not (by rw [hrec]; exact nofun)]
      exact ⟨log, h, rfl⟩
    | some txn =>
      cases hid : txn.id? with
      | none =>
        rw [run_move_implicit ht hid,
          record_move_of_not (by rw [h.record_implicit ht hid]; exact nofun)]
        exact ⟨log, h, rfl⟩
      | some id =>
        obtain ⟨st, hrec, -, hst⟩ := h.exists_record hroom ht hid
        cases hmove : st.canMove target with
        | true =>
          rw [run_move_legal ht hid (hst.symm ▸ hmove), record_move ⟨st, hrec, hmove⟩]
          exact ⟨_, h.moved hroom ht hid (hst.symm ▸ hmove), rfl⟩
        | false =>
          rw [run_move_illegal ht hid (hst.symm ▸ hmove), record_move_of_not]
          · exact ⟨log, h, rfl⟩
          · intro st' hst'
            obtain rfl : st = st' := Option.some.inj (Option.some.inj (hrec.symm.trans hst'))
            exact hmove
  | info t => exact ⟨log, h, rfl⟩
  | stateOf id => exact ⟨log, h, rfl⟩
  | sees t id => exact ⟨log, h, rfl⟩
  | classify reader writer => exact ⟨log, h, rfl⟩
  | tracked => exact ⟨log, h, rfl⟩

private theorem exists_follows (calls : List TxnCall) (hroom : begun calls + 1 < 2 ^ 64) :
    ∃ log, (after calls).Follows (records calls) log ∧ log.begun = begun calls := by
  induction calls using List.reverseRecOn with
  | nil => exact ⟨[], follows_empty, rfl⟩
  | append_singleton calls call ih =>
    rw [begun_append_single] at hroom
    obtain ⟨log, hlog, hbegun⟩ := ih (by omega)
    rw [after_append_single, records_append_single, begun_append_single, ← hbegun]
    exact hlog.run call (by rw [hbegun]; exact hroom)

theorem record_step (states : List (Option TxnState)) (call : TxnCall) {st : TxnState}
    (h : states[t]? = some (some st)) :
    ∃ st', (call.record states)[t]? = some (some st') ∧
      (st' = st ∨ st.Leads st' ∧ call = .move t st') := by
  have hlt : t < states.length := (List.getElem?_eq_some_iff.1 h).1
  cases call with
  | begin ignorePrepare => exact ⟨st, (List.getElem?_append_left hlt).trans h, Or.inl rfl⟩
  | implicit => exact ⟨st, (List.getElem?_append_left hlt).trans h, Or.inl rfl⟩
  | move t' target =>
    by_cases hmove : ∃ st, states[t']? = some (some st) ∧ st.canMove target = true
    · rw [record_move hmove, List.getElem?_set]
      by_cases ht : t' = t
      · subst ht
        obtain ⟨st', hst', hmove⟩ := hmove
        obtain rfl : st = st' := Option.some.inj (Option.some.inj (h.symm.trans hst'))
        rw [if_pos rfl, if_pos hlt]
        exact ⟨target, rfl, Or.inr ⟨TxnState.canMove_iff_leads.1 hmove, rfl⟩⟩
      · rw [if_neg ht]
        exact ⟨st, h, Or.inl rfl⟩
    · rw [record_move_of_not]
      · exact ⟨st, h, Or.inl rfl⟩
      · intro st' hst'
        exact Bool.eq_false_iff.2 fun hcan => hmove ⟨st', hst', hcan⟩
  | info t => exact ⟨st, h, Or.inl rfl⟩
  | stateOf id => exact ⟨st, h, Or.inl rfl⟩
  | sees t id => exact ⟨st, h, Or.inl rfl⟩
  | classify reader writer => exact ⟨st, h, Or.inl rfl⟩
  | tracked => exact ⟨st, h, Or.inl rfl⟩

theorem record_final {past : List TxnCall} {st : TxnState}
    (h : (records past)[t]? = some (some st)) (hfin : st.isRunning = false)
    (more : List TxnCall) : (records (past ++ more))[t]? = some (some st) := by
  induction more using List.reverseRecOn with
  | nil => rwa [List.append_nil]
  | append_singleton more call ih =>
    rw [← List.append_assoc, records_append_single]
    obtain ⟨st', hst', rfl | ⟨hleads, -⟩⟩ := record_step _ call ih
    · exact hst'
    · rw [TxnState.isRunning_of_canMove (TxnState.canMove_iff_leads.2 hleads)] at hfin
      cases hfin

theorem opened_append {past : List TxnCall} (h : (after past).opened[t]? = some txn)
    (more : List TxnCall) : (after (past ++ more)).opened[t]? = some txn := by
  induction more using List.reverseRecOn with
  | nil => rwa [List.append_nil]
  | append_singleton more call ih =>
    have hlt := (List.getElem?_eq_some_iff.1 ih).1
    rw [← List.append_assoc, after_append_single]
    cases call with
    | begin ignorePrepare => exact (List.getElem?_append_left hlt).trans ih
    | implicit => exact (List.getElem?_append_left hlt).trans ih
    | move t' target =>
      rw [TxnCall.run]
      split
      next => exact ih
      next =>
        split
        next => exact ih
        next => exact ih
    | info t => exact ih
    | stateOf id => exact ih
    | sees t id => exact ih
    | classify reader writer => exact ih
    | tracked => exact ih

private theorem Follows.begin_reply (h : d.Follows states log) (hroom : log.begun + 1 < 2 ^ 64)
    (ignorePrepare : Bool) :
    ((TxnCall.begin ignorePrepare).run d).1 = .begun (TxnId.following log.begun) := by
  refine congrArg Reply.begun (UInt64.toNat_inj.1 ?_)
  rw [TxnId.toNat_following hroom]
  exact h.agrees.next

theorem Follows.stateOf_unissued (h : d.Follows states log)
    (hid : id = 0 ∨ log.begun < id.toNat) : d.ledger.stateOf id = .aborted := by
  refine h.agrees.stateOf_of_none (Option.not_isSome_iff_eq_none.1 fun hsome => ?_)
  obtain ⟨hne, hlt⟩ := (h.agrees.issued id).1 hsome
  rw [UInt64.lt_iff_toNat_lt, h.agrees.next] at hlt
  rcases hid with h0 | hmore
  · exact hne h0
  · omega

theorem Follows.snapshot_sees (h : d.Follows states log) (h0 : id ≠ 0) :
    d.ledger.snapshot.sees id = true ↔
      id.toNat ≤ log.begun ∧ (d.ledger.stateOf id).isRunning = false := by
  have hissued : (log.state? id).isSome ↔ id.toNat ≤ log.begun := by
    rw [h.agrees.issued id, UInt64.lt_iff_toNat_lt, h.agrees.next, Nat.lt_succ_iff]
    exact and_iff_right h0
  rw [h.agrees.snapshot id h0, ← hissued]
  constructor
  · rintro ⟨st, hst, hfin⟩
    rw [h.agrees.stateOf_eq hst]
    exact ⟨Option.isSome_iff_exists.2 ⟨st, hst⟩, hfin⟩
  · rintro ⟨hsome, hfin⟩
    obtain ⟨st, hst⟩ := Option.isSome_iff_exists.1 hsome
    rw [h.agrees.stateOf_eq hst] at hfin
    exact ⟨st, hst, hfin⟩

theorem opened_by_start (past : List TxnCall) {call : TxnCall}
    (hcall : call.isBegin = true ∨ call = .implicit) :
    ∃ txn, (after (past ++ [call])).opened[(after past).opened.length]? = some txn ∧
      txn.snapshot = (after past).ledger.snapshot := by
  rw [after_append_single]
  rcases hcall with hbegin | rfl
  · cases call with
    | begin ignorePrepare => exact ⟨_, List.getElem?_concat_length, rfl⟩
    | implicit => cases hbegin
    | move t target => cases hbegin
    | info t => cases hbegin
    | stateOf id => cases hbegin
    | sees t id => cases hbegin
    | classify reader writer => cases hbegin
    | tracked => cases hbegin
  · exact ⟨_, List.getElem?_concat_length, rfl⟩

/-- Numbers are handed out in turn. The ledger and the records tell the same states, which go only
where they may; a move that may not be made changes nothing. Zero and the numbers to come read as
aborted, only commits leave the ledger, and a snapshot sees what was handed out by then and had
finished. -/
theorem in_step_with_records (past : List TxnCall) (hroom : begun past + 1 < 2 ^ 64) :
    ((after past).opened.filterMap Transaction.id? =
        (List.range (begun past)).map TxnId.following ∧
      ∀ ignorePrepare, ((TxnCall.begin ignorePrepare).run (after past)).1 =
        .begun (TxnId.following (begun past))) ∧
    (∀ (t : Nat) (txn : Transaction) (id : TxnId),
      (after past).opened[t]? = some txn → txn.id? = some id →
      ∃ st, (records past)[t]? = some (some st) ∧
        (after past).ledger.stateOf id = st ∧ (after past).ledger.state txn = st ∧
        (∀ target, st.Leads target →
          ((TxnCall.move t target).run (after past)).1 = .done ∧
          (records (past ++ [.move t target]))[t]? = some (some target)) ∧
        (∀ target, ¬ st.Leads target →
          (TxnCall.move t target).run (after past) =
            (.failed (.invalidArgument (.illegalMove id st target)), after past) ∧
          records (past ++ [.move t target]) = records past) ∧
        (∀ call, ∃ st', (records (past ++ [call]))[t]? = some (some st') ∧
          (st' = st ∨ st.Leads st' ∧ call = .move t st')) ∧
        (st.isRunning = false → ∀ more, (records (past ++ more))[t]? = some (some st))) ∧
    (∀ (t : Nat) (txn : Transaction) (target : TxnState),
      (after past).opened[t]? = some txn → txn.id? = none →
      (TxnCall.move t target).run (after past) =
        (.failed (.invalidArgument .implicitMove), after past)) ∧
    (∀ id : TxnId, id = 0 ∨ begun past < id.toNat → (after past).ledger.stateOf id = .aborted) ∧
    (after past).ledger.tracked + (records past).count (some .committed) = begun past ∧
    (∀ (call : TxnCall) (more : List TxnCall), call.isBegin = true ∨ call = .implicit →
      ∃ txn, (after (past ++ call :: more)).opened[(after past).opened.length]? = some txn ∧
        ∀ id : TxnId, id ≠ 0 → (txn.snapshot.sees id = true ↔
          id.toNat ≤ begun past ∧ ((after past).ledger.stateOf id).isRunning = false)) := by
  obtain ⟨log, h, hbegun⟩ := exists_follows past hroom
  rw [← hbegun] at hroom ⊢
  refine ⟨⟨h.numbered, h.begin_reply hroom⟩, ?_, ?_, ?_, h.tracked, ?_⟩
  · intro t txn id ht hid
    obtain ⟨st, hrec, -, hst⟩ := h.exists_record hroom ht hid
    have hstate : (after past).ledger.state txn = st := by
      rw [Ledger.state, hid]
      exact hst
    refine ⟨st, hrec, hst, hstate, ?_, ?_, ?_, record_final hrec⟩
    · intro target hleads
      have hmove := TxnState.canMove_iff_leads.2 hleads
      rw [run_move_legal ht hid (hst.symm ▸ hmove), records_append_single,
        record_move ⟨st, hrec, hmove⟩, List.getElem?_set_self (List.getElem?_eq_some_iff.1 hrec).1]
      exact ⟨rfl, rfl⟩
    · intro target hleads
      have hmove : st.canMove target = false :=
        Bool.eq_false_iff.2 fun hcan => hleads (TxnState.canMove_iff_leads.1 hcan)
      rw [run_move_illegal ht hid (hst.symm ▸ hmove), hst, records_append_single,
        record_move_of_not]
      · exact ⟨rfl, rfl⟩
      · intro st' hst'
        obtain rfl : st = st' := Option.some.inj (Option.some.inj (hrec.symm.trans hst'))
        exact hmove
    · intro call
      rw [records_append_single]
      exact record_step _ call hrec
  · intro t txn target ht hid
    exact run_move_implicit ht hid
  · intro id hid
    exact h.stateOf_unissued hid
  · intro call more hcall
    obtain ⟨txn, htxn, hsnapshot⟩ := opened_by_start past hcall
    refine ⟨txn, ?_, fun id h0 => ?_⟩
    · rw [List.append_cons]
      exact opened_append htxn more
    · rw [hsnapshot]
      exact h.snapshot_sees h0

/-- Three transactions and an implicit one: the first commits out of the prepared state, the second
aborts, the third keeps running. -/
def mingled : List TxnCall :=
  [.begin false, .begin true, .move 0 .prepared, .implicit, .begin false, .move 1 .aborted,
    .move 0 .committed]

theorem in_step_with_records_mingled :
    begun mingled + 1 < 2 ^ 64 ∧
      records mingled = [some .committed, some .aborted, none, some .active] ∧
      (after mingled).ledger.tracked + 1 = begun mingled ∧
      ∃ txn, (after (mingled ++ [.implicit, .move 3 .committed])).opened[4]? = some txn ∧
        ∀ id : TxnId, id ≠ 0 → (txn.snapshot.sees id = true ↔ id.toNat ≤ 3 ∧ id ≠ 3) := by
  obtain ⟨-, -, -, -, htracked, hstart⟩ := in_step_with_records mingled (by decide)
  obtain ⟨txn, htxn, hsees⟩ := hstart .implicit [.move 3 .committed] (Or.inr rfl)
  refine ⟨by decide, by decide, htracked, txn, htxn, fun id h0 => (hsees id h0).trans ?_⟩
  refine and_congr_right fun hle => ?_
  have hcases : id = 1 ∨ id = 2 ∨ id = 3 := by
    have hne : id.toNat ≠ 0 := fun he => h0 (UInt64.toNat_inj.1 he)
    have hle' : id.toNat ≤ 3 := hle
    simp only [← UInt64.toNat_inj, UInt64.reduceToNat]
    omega
  rcases hcases with rfl | rfl | rfl <;> decide

end Desk

end Keyspan
