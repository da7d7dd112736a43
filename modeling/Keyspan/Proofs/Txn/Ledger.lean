import Mathlib.Algebra.Ring.Nat
import Keyspan.Proofs.Txn.Log

set_option autoImplicit false
set_option relaxedAutoImplicit false

namespace Keyspan

def Log.begun : Log → Nat
  | [] => 0
  | .began _ :: log => begun log + 1
  | _ :: log => begun log

def Snapshot.Of (snapshot : Snapshot) (base : Log) : Prop :=
  ∀ id, id ≠ 0 → (snapshot.sees id = true ↔ base.Finished id)

private theorem Phase.isRunning_state (ph : Phase) : ph.state.isRunning = true := by
  cases ph <;> rfl

private theorem Phase.state_injective {ph ph' : Phase} (h : ph.state = ph'.state) : ph = ph' := by
  cases ph <;> cases ph' <;> first | rfl | cases h

theorem Phase.exists_state {st : TxnState} (h : st.isRunning = true) :
    ∃ ph : Phase, ph.state = st := by
  cases st with
  | active => exact ⟨.active, rfl⟩
  | prepared => exact ⟨.prepared, rfl⟩
  | committed => cases h
  | aborted => cases h

def TxnState.phase? : TxnState → Option Phase
  | active => some .active
  | prepared => some .prepared
  | committed => none
  | aborted => none

private theorem TxnState.phase?_eq_some_iff {st : TxnState} {ph : Phase} :
    st.phase? = some ph ↔ st = ph.state := by
  cases st <;> cases ph <;> decide

namespace Ledger

private theorem lookup_eq_none_iff (running : List (TxnId × Phase)) (id : TxnId) :
    running.lookup id = none ↔ id ∉ running.map (·.1) := by
  induction running with
  | nil => simp
  | cons p running ih =>
    obtain ⟨i, ph⟩ := p
    by_cases hi : id = i
    · subst hi
      simp
    · have hb : (id == i) = false := by simpa using hi
      simp [List.lookup_cons, hb, ih, hi]

private theorem lookup_prepare (running : List (TxnId × Phase)) (id i : TxnId) :
    (running.map fun (j, ph) => (j, if j = id then Phase.prepared else ph)).lookup i =
      (running.lookup i).map fun ph => if i = id then .prepared else ph := by
  induction running with
  | nil => rfl
  | cons p running ih =>
    obtain ⟨j, ph⟩ := p
    by_cases hi : i = j
    · subst hi
      simp
    · have hb : (i == j) = false := by simpa using hi
      simpa [List.lookup_cons, hb] using ih

private theorem lookup_finish (running : List (TxnId × Phase)) (id i : TxnId) :
    (running.filter (·.1 ≠ id)).lookup i = if i = id then none else running.lookup i := by
  induction running with
  | nil => simp
  | cons p running ih =>
    obtain ⟨j, ph⟩ := p
    by_cases hj : j = id
    · subst hj
      rw [List.filter_cons_of_neg (by simp), ih]
      by_cases hi : i = j
      · rw [if_pos hi, if_pos hi]
      · have hb : (i == j) = false := by simpa using hi
        rw [if_neg hi, if_neg hi, List.lookup_cons, hb]
    · rw [List.filter_cons_of_pos (by simpa using hj), List.lookup_cons, List.lookup_cons, ih]
      by_cases hi : i = j
      · subst hi
        simp [hj]
      · have hb : (i == j) = false := by simpa using hi
        simp [hb]

structure Agrees (l : Ledger) (log : Log) : Prop where
  issued : ∀ id, (log.state? id).isSome ↔ id ≠ 0 ∧ id < l.nextId
  running : ∀ id ph, l.running.lookup id = some ph ↔ log.state? id = some ph.state
  aborted : ∀ id, id ∈ l.aborted ↔ log.state? id = some .aborted
  next : l.nextId.toNat = log.begun + 1

theorem agrees_empty : Agrees {} [] where
  issued id := by
    constructor
    · nofun
    · rintro ⟨hne, hlt⟩
      have hlt' : id.toNat < 1 := hlt
      exact absurd (UInt64.toNat_inj.1 (Nat.lt_one_iff.1 hlt')) hne
  running id ph := ⟨nofun, nofun⟩
  aborted id := ⟨nofun, nofun⟩
  next := rfl

variable {l : Ledger} {log : Log}

/-- The state that a ledger tells is the one in the log. -/
theorem Agrees.stateOf_eq (h : l.Agrees log) {id : TxnId} {st : TxnState}
    (hs : log.state? id = some st) : l.stateOf id = st := by
  have hissued : id ≠ 0 ∧ id < l.nextId := (h.issued id).1 (by rw [hs]; rfl)
  have hnot : ¬ (id = 0 ∨ l.nextId ≤ id) := by
    rintro (h0 | hle)
    · exact hissued.1 h0
    · exact absurd hissued.2 (UInt64.not_lt.2 hle)
  rw [stateOf, if_neg hnot]
  cases hlook : l.running.lookup id with
  | some ph => exact Option.some.inj (((h.running id ph).1 hlook).symm.trans hs)
  | none =>
    have hfin : st.isRunning = false := by
      cases hrun : st.isRunning with
      | false => rfl
      | true =>
        obtain ⟨ph, rfl⟩ := Phase.exists_state hrun
        rw [(h.running id ph).2 hs] at hlook
        cases hlook
    have habort := h.aborted id
    rw [hs] at habort
    cases st with
    | active => cases hfin
    | prepared => cases hfin
    | committed => simp [habort]
    | aborted => simp [habort]

theorem Agrees.stateOf_of_none (h : l.Agrees log) {id : TxnId} (hs : log.state? id = none) :
    l.stateOf id = .aborted := by
  have hnot : ¬ (id ≠ 0 ∧ id < l.nextId) := by
    rw [← h.issued id, hs]
    nofun
  rw [stateOf, if_pos]
  by_cases h0 : id = 0
  · exact Or.inl h0
  · exact Or.inr (UInt64.not_lt.1 fun hlt => hnot ⟨h0, hlt⟩)

theorem Agrees.state?_eq (h : l.Agrees log) {id : TxnId} {st : TxnState}
    (hs : l.stateOf id = st) (hne : st ≠ .aborted) : log.state? id = some st := by
  cases hl : log.state? id with
  | none => exact absurd (hs.symm.trans (h.stateOf_of_none hl)) hne
  | some st' => rw [← hs, h.stateOf_eq hl]

theorem Agrees.snapshot (h : l.Agrees log) : l.snapshot.Of log := by
  intro id h0
  have hconc : l.snapshot.concurrent.contains id = true ↔
      ∃ st, log.state? id = some st ∧ st.isRunning = true := by
    rw [List.contains_iff_mem]
    constructor
    · intro hmem
      cases hlook : l.running.lookup id with
      | none => exact absurd hmem ((lookup_eq_none_iff _ _).1 hlook)
      | some ph => exact ⟨ph.state, (h.running id ph).1 hlook, ph.isRunning_state⟩
    · rintro ⟨st, hs, hrun⟩
      obtain ⟨ph, rfl⟩ := Phase.exists_state hrun
      refine Decidable.byContradiction fun hno => ?_
      have hlook := (h.running id ph).2 hs
      rw [(lookup_eq_none_iff _ _).2 hno] at hlook
      cases hlook
  have hsees : l.snapshot.sees id = true ↔
      id < l.nextId ∧ ¬ l.snapshot.concurrent.contains id = true := by
    rw [Snapshot.sees, Bool.and_eq_true, decide_eq_true_eq, Bool.not_eq_true', Bool.not_eq_true]
    rfl
  rw [hsees, hconc]
  constructor
  · rintro ⟨hlt, hno⟩
    obtain ⟨st, hs⟩ := Option.isSome_iff_exists.1 ((h.issued id).2 ⟨h0, hlt⟩)
    refine ⟨st, hs, ?_⟩
    cases hrun : st.isRunning with
    | false => rfl
    | true => exact absurd ⟨st, hs, hrun⟩ hno
  · rintro ⟨st, hs, hfin⟩
    refine ⟨((h.issued id).1 (by rw [hs]; rfl)).2, ?_⟩
    rintro ⟨st', hs', hrun⟩
    obtain rfl := Option.some.inj (hs.symm.trans hs')
    rw [hfin] at hrun
    cases hrun

theorem Agrees.state?_nextId (h : l.Agrees log) : log.state? l.nextId = none := by
  cases hs : log.state? l.nextId with
  | none => rfl
  | some st =>
    have hissued := (h.issued l.nextId).1 (by rw [hs]; rfl)
    exact absurd hissued.2 (UInt64.lt_irrefl _)

theorem Agrees.nextId_ne_zero (h : l.Agrees log) : l.nextId ≠ 0 := by
  intro h0
  have hn := h.next
  rw [h0] at hn
  cases hn

theorem Agrees.begin (h : l.Agrees log) (hroom : log.begun + 2 < 2 ^ 64)
    (ignorePrepare : Bool) : (l.begin ignorePrepare).2.Agrees (.began l.nextId :: log) := by
  have hnext : (l.nextId + 1).toNat = l.nextId.toNat + 1 := by
    have hn := h.next
    rw [UInt64.toNat_add]
    exact Nat.mod_eq_of_lt (by simp only [UInt64.reduceToNat]; omega)
  have hnew := h.state?_nextId
  refine ⟨?_, ?_, ?_, ?_⟩
  · intro id
    rw [Log.state?]
    by_cases hid : l.nextId = id
    · subst hid
      rw [if_pos rfl]
      refine ⟨fun _ => ⟨h.nextId_ne_zero, ?_⟩, fun _ => rfl⟩
      show l.nextId.toNat < (l.nextId + 1).toNat
      omega
    · rw [if_neg hid, h.issued id]
      have hne : l.nextId.toNat ≠ id.toNat := fun he => hid (UInt64.toNat_inj.1 he)
      have hlt : id < l.nextId ↔ id < l.nextId + 1 := by
        rw [UInt64.lt_iff_toNat_lt, UInt64.lt_iff_toNat_lt, hnext]
        omega
      rw [hlt]
      rfl
  · intro id ph
    show List.lookup id ((l.nextId, .active) :: l.running) = some ph ↔ _
    rw [List.lookup_cons, Log.state?]
    by_cases hid : l.nextId = id
    · subst hid
      rw [beq_self_eq_true, if_pos rfl]
      constructor
      · intro hph
        rw [← Option.some.inj hph]
        rfl
      · intro hst
        exact congrArg some (Phase.state_injective (Option.some.inj hst))
    · have hb : (id == l.nextId) = false := by simpa using fun he : id = l.nextId => hid he.symm
      rw [hb, if_neg hid]
      exact h.running id ph
  · intro id
    show id ∈ l.aborted ↔ _
    rw [Log.state?, h.aborted id]
    split
    next hid =>
      subst hid
      rw [hnew]
      constructor
      · intro h
        cases h
      · intro h
        cases h
    next => rfl
  · show (l.nextId + 1).toNat = _
    rw [hnext, h.next]
    rfl

private theorem Agrees.moved (h : l.Agrees log) {id : TxnId} {st target : TxnState}
    (hst : log.state? id = some st) (hrun : st.isRunning = true) {l' : Ledger}
    (hnext : l'.nextId = l.nextId)
    (hrunning : ∀ i, l'.running.lookup i = if i = id then target.phase? else l.running.lookup i)
    (haborted : ∀ i, i ∈ l'.aborted ↔ (i = id ∧ target = .aborted) ∨ i ∈ l.aborted) :
    l'.Agrees (.moved id target :: log) := by
  refine ⟨?_, ?_, ?_, ?_⟩
  · intro i
    rw [Log.state?, hnext]
    by_cases hi : id = i
    · subst hi
      rw [if_pos rfl, ← h.issued id, hst]
      exact ⟨fun _ => rfl, fun _ => rfl⟩
    · rw [if_neg hi]
      exact h.issued i
  · intro i ph
    rw [hrunning, Log.state?]
    by_cases hi : id = i
    · subst hi
      rw [if_pos rfl, if_pos rfl, TxnState.phase?_eq_some_iff, Option.some_inj]
    · rw [if_neg hi, if_neg fun he => hi he.symm]
      exact h.running i ph
  · intro i
    rw [haborted, Log.state?, h.aborted i]
    by_cases hi : id = i
    · subst hi
      have hno : log.state? id ≠ some .aborted := by
        rw [hst]
        rintro he
        obtain rfl := Option.some.inj he
        cases hrun
      simp [hno]
    · rw [if_neg hi]
      exact ⟨fun he => he.resolve_left fun he => hi he.1.symm, Or.inr⟩
  · rw [hnext, h.next]
    rfl

/-- A move that the ledger makes is one that the log allows. -/
theorem Agrees.move (h : l.Agrees log) {t : Transaction} {target : TxnState} {l' : Ledger}
    (hmove : l.move t target = .ok l') :
    ∃ id, t.id? = some id ∧ log.Allows (.moved id target) ∧
      l'.Agrees (.moved id target :: log) := by
  rw [Ledger.move] at hmove
  cases hid : t.id? with
  | none =>
    rw [hid] at hmove
    cases hmove
  | some id =>
    rw [hid] at hmove
    dsimp only at hmove
    split at hmove
    next hcan =>
      obtain rfl := Except.ok.inj hmove
      have hrun := TxnState.isRunning_of_canMove hcan
      have hst : log.state? id = some (l.stateOf id) := by
        refine h.state?_eq rfl fun he => ?_
        rw [he] at hrun
        cases hrun
      refine ⟨id, rfl, ⟨_, hst, hcan⟩, ?_⟩
      cases target with
      | active => cases hs : l.stateOf id <;> rw [hs] at hcan <;> cases hcan
      | prepared =>
        refine h.moved hst hrun rfl (fun i => ?_) (fun i => by simp [enter])
        obtain ⟨ph, hph⟩ := Phase.exists_state hrun
        rw [enter, lookup_prepare]
        by_cases hi : i = id
        · subst hi
          rw [(h.running i ph).2 (by rw [hst, hph]), if_pos rfl]
          simp [TxnState.phase?]
        · simp [hi]
      | committed => exact h.moved hst hrun rfl (lookup_finish l.running id) (by simp [enter])
      | aborted => exact h.moved hst hrun rfl (lookup_finish l.running id) (by simp [enter])
    next => cases hmove

end Ledger

end Keyspan
