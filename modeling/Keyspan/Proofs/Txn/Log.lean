import Keyspan.Proofs.Store.Chains
import Keyspan.Txn.Visibility

/-!
Logs: what happened in a table, newest first, as far as reads can tell.

A log says by itself which transactions finished and what was written when. In a valid one a finished
transaction stays as it is and writes no more, and nobody writes before they begin; so what a
transaction wrote stands above all that finished before it began.
-/

set_option autoImplicit false
set_option relaxedAutoImplicit false

namespace Keyspan

theorem TxnState.isRunning_of_canMove {st target : TxnState} (h : st.canMove target = true) :
    st.isRunning = true := by
  cases st with
  | active => rfl
  | prepared => rfl
  | committed => cases target <;> cases h
  | aborted => cases target <;> cases h

inductive Event
  | began (id : TxnId)
  | moved (id : TxnId) (target : TxnState)
  | wrote (id : TxnId) (key : Bytes) (value : Option Bytes)
  deriving DecidableEq, Repr

namespace Event

/-- The update that an event makes of a key that compares equal. -/
def update? (order : KeyOrder) (key : Bytes) : Event → Option Version
  | wrote id k value => if order.compare k key = .eq then some ⟨id, value⟩ else none
  | _ => none

def append? : Event → Option (Bytes × Version)
  | wrote id key value => some (key, ⟨id, value⟩)
  | _ => none

end Event

/-- What happened so far, newest first. -/
abbrev Log := List Event

namespace Log

/-- The state of a transaction, once it began. -/
def state? : Log → TxnId → Option TxnState
  | [], _ => none
  | .began i :: log, id => if i = id then some .active else state? log id
  | .moved i target :: log, id => if i = id then some target else state? log id
  | .wrote _ _ _ :: log, id => state? log id

/-- The transaction began and no longer runs. -/
def Finished (log : Log) (id : TxnId) : Prop :=
  ∃ st, log.state? id = some st ∧ st.isRunning = false

/-- What had happened when a transaction began. -/
def before (id : TxnId) : Log → Log
  | [] => []
  | e :: log => if e = .began id then log else before id log

/-- The updates of a key, newest first. -/
def updates (order : KeyOrder) (key : Bytes) (log : Log) : List Version :=
  log.filterMap (Event.update? order key)

def appends (log : Log) : List (Bytes × Version) :=
  (log.filterMap Event.append?).reverse

/-- What may happen next: numbers are handed out once, running transactions make the moves there are,
and active ones write. -/
def Allows (log : Log) : Event → Prop
  | .began id => log.state? id = none
  | .moved id target => ∃ st, log.state? id = some st ∧ st.canMove target = true
  | .wrote id _ _ => log.state? id = some .active

def Valid : Log → Prop
  | [] => True
  | e :: log => Allows log e ∧ Valid log

variable {log more : Log} {id : TxnId}

theorem Valid.right (h : Valid (more ++ log)) : Valid log := by
  induction more with
  | nil => exact h
  | cons e more ih => exact ih h.2

theorem isSome_state?_append (hs : (log.state? id).isSome) (more : Log) :
    (state? (more ++ log) id).isSome := by
  induction more with
  | nil => exact hs
  | cons e more ih =>
    rw [List.cons_append]
    cases e with
    | began i =>
      rw [state?]
      split
      · rfl
      · exact ih
    | moved i target =>
      rw [state?]
      split
      · rfl
      · exact ih
    | wrote i key value => exact ih

theorem state?_append_of_finished {st : TxnState} (h : Valid (more ++ log))
    (hs : log.state? id = some st) (hf : st.isRunning = false) :
    state? (more ++ log) id = some st := by
  induction more with
  | nil => exact hs
  | cons e more ih =>
    have hnow := ih h.2
    have hallowed := h.1
    rw [List.cons_append]
    cases e with
    | began i =>
      rw [state?, if_neg]
      · exact hnow
      · rintro rfl
        have hnone : state? (more ++ log) i = none := hallowed
        rw [hnow] at hnone
        cases hnone
    | moved i target =>
      rw [state?, if_neg]
      · exact hnow
      · rintro rfl
        obtain ⟨st', hst, hmove⟩ := hallowed
        obtain rfl : st = st' := Option.some.inj (hnow.symm.trans hst)
        rw [TxnState.isRunning_of_canMove hmove] at hf
        cases hf
    | wrote i key value => exact hnow

theorem writer_ne_of_finished (h : Valid (more ++ log)) (hf : log.Finished id)
    (order : KeyOrder) (key : Bytes) : ∀ v ∈ updates order key more, v.writer ≠ id := by
  obtain ⟨st, hs, hrun⟩ := hf
  induction more with
  | nil => exact nofun
  | cons e more ih =>
    intro v hv
    rw [updates, List.filterMap_cons] at hv
    split at hv
    next => exact ih h.2 v hv
    next u hu =>
      rcases List.mem_cons.1 hv with rfl | hv
      · cases e with
        | wrote i k value =>
          have hactive : state? (more ++ log) i = some .active := h.1
          rw [Event.update?] at hu
          split at hu
          · obtain rfl := Option.some.inj hu
            rintro rfl
            have hkept := state?_append_of_finished h.2 hs hrun
            rw [hactive] at hkept
            obtain rfl := Option.some.inj hkept
            cases hrun
          · cases hu
        | began i => cases hu
        | moved i target => cases hu
      · exact ih h.2 v hv

theorem isSome_state?_writer (h : Valid log) (order : KeyOrder) (key : Bytes) :
    ∀ v ∈ updates order key log, (log.state? v.writer).isSome := by
  induction log with
  | nil => exact nofun
  | cons e log ih =>
    intro v hv
    rw [updates, List.filterMap_cons] at hv
    have hold : ∀ u ∈ updates order key log, (state? (e :: log) u.writer).isSome := fun u hu =>
      isSome_state?_append (ih h.2 u hu) [e]
    split at hv
    next => exact hold v hv
    next u hu =>
      rcases List.mem_cons.1 hv with rfl | hv
      · cases e with
        | wrote i k value =>
          have hactive : state? log i = some .active := h.1
          rw [Event.update?] at hu
          split at hu
          · obtain rfl := Option.some.inj hu
            rw [state?, hactive]
            rfl
          · cases hu
        | began i => cases hu
        | moved i target => cases hu
      · exact hold v hv

theorem exists_began (h : Valid log) (hs : (log.state? id).isSome) :
    ∃ since, log = since ++ .began id :: log.before id := by
  induction log with
  | nil => cases hs
  | cons e log ih =>
    by_cases he : e = .began id
    · refine ⟨[], ?_⟩
      rw [before, if_pos he, he]
      rfl
    · have hknown : (state? log id).isSome := by
        cases e with
        | began i =>
          rw [state?, if_neg] at hs
          · exact hs
          · rintro rfl
            exact he rfl
        | moved i target =>
          obtain ⟨st, hst, -⟩ := h.1
          rw [state?] at hs
          split at hs
          next hi =>
            subst hi
            rw [hst]
            rfl
          next => exact hs
        | wrote i key value => exact hs
      obtain ⟨since, hlog⟩ := ih h.2 hknown
      refine ⟨e :: since, ?_⟩
      rw [before, if_neg he, List.cons_append, ← hlog]

theorem before_append (h : Valid (more ++ log)) (hs : (log.state? id).isSome) :
    before id (more ++ log) = before id log := by
  induction more with
  | nil => rfl
  | cons e more ih =>
    rw [List.cons_append, before, if_neg]
    · exact ih h.2
    · rintro rfl
      have hnone : state? (more ++ log) id = none := h.1
      have hsome := isSome_state?_append hs more
      rw [hnone] at hsome
      cases hsome

theorem updates_append (order : KeyOrder) (key : Bytes) (more log : Log) :
    updates order key (more ++ log) = updates order key more ++ updates order key log :=
  List.filterMap_append

theorem appends_cons (e : Event) (log : Log) :
    appends (e :: log) = appends log ++ e.append?.toList := by
  rw [appends, appends, List.filterMap_cons]
  cases e.append? with
  | none => simp
  | some a => simp

/-- The updates of a key are what was appended under it. -/
theorem updates_eq (order : KeyOrder) (key : Bytes) (log : Log) :
    updates order key log = Flat.chain order key (appends log) := by
  induction log with
  | nil => rfl
  | cons e log ih =>
    rw [appends_cons, updates, List.filterMap_cons]
    cases e with
    | wrote id k value =>
      rw [Event.append?, Option.toList_some, Event.update?]
      by_cases hk : order.compare k key = .eq
      · rw [if_pos hk, Flat.chain_concat_of_eq (appends log) (a := (k, ⟨id, value⟩)) hk, ← ih]
        rfl
      · rw [if_neg hk, Flat.chain_concat_of_ne (appends log) (a := (k, ⟨id, value⟩)) hk, ← ih]
        rfl
    | began id =>
      show updates order key log = Flat.chain order key (appends log ++ [])
      rw [List.append_nil, ih]
    | moved id target =>
      show updates order key log = Flat.chain order key (appends log ++ [])
      rw [List.append_nil, ih]

end Log

end Keyspan
