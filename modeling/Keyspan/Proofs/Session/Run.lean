import Keyspan.Proofs.Cursor.Quiet
import Keyspan.Proofs.Session.Isolation
import Keyspan.Proofs.Store.Weight

set_option autoImplicit false
set_option relaxedAutoImplicit false

namespace Keyspan

def Event.weight : Event → Nat
  | began _ => 1
  | moved _ _ => 0
  | wrote id key value => appendWeight (key, ⟨id, value⟩)

def Log.weight (log : Log) : Nat :=
  (log.map Event.weight).sum

/-- The bytes that a call brings along, and room for what is stored beside them. -/
def Call.footprint : Call → Nat
  | insert _ key value => 64 + key.encode.length + value.length
  | remove _ key => 64 + key.encode.length
  | cursor _ (.setBound _ key _) => 64 + key.encode.length
  | _ => 64

def Call.footprints (calls : List Call) : Nat :=
  (calls.map Call.footprint).sum

def Call.isRaw : Call → Bool
  | store (.append _ _) => true
  | _ => false

theorem Call.footprint_ge (call : Call) : 64 ≤ call.footprint := by
  unfold Call.footprint
  split <;> omega

theorem Call.footprints_cons (call : Call) (calls : List Call) :
    footprints (call :: calls) = call.footprint + footprints calls := by
  rw [footprints, List.map_cons, List.sum_cons]
  rfl

theorem Call.footprints_append (front back : List Call) :
    footprints (front ++ back) = footprints front + footprints back := by
  rw [footprints, List.map_append, List.sum_append]
  rfl

namespace Log

private theorem weight_cons (e : Event) (log : Log) : weight (e :: log) = e.weight + weight log := by
  rw [weight, weight, List.map_cons, List.sum_cons]

private theorem weight_append (more log : Log) : weight (more ++ log) = weight more + weight log := by
  rw [weight, List.map_append, List.sum_append]
  rfl

private theorem appendWeight_le (log : Log) : (log.appends.map appendWeight).sum ≤ log.weight := by
  induction log with
  | nil => exact Nat.le_refl 0
  | cons e log ih =>
    rw [appends_cons, List.map_append, List.sum_append, weight_cons]
    cases e with
    | began id =>
      show _ + 0 ≤ 1 + _
      omega
    | moved id target =>
      show _ + 0 ≤ 0 + _
      omega
    | wrote id key value =>
      show _ + (appendWeight (key, ⟨id, value⟩) + 0) ≤ appendWeight (key, ⟨id, value⟩) + _
      omega

theorem begun_le (log : Log) : log.begun ≤ log.weight := by
  induction log with
  | nil => exact Nat.le_refl 0
  | cons e log ih =>
    rw [weight_cons]
    cases e with
    | began id =>
      show begun log + 1 ≤ 1 + _
      omega
    | moved id target =>
      show begun log ≤ 0 + _
      omega
    | wrote id key value =>
      show begun log ≤ _
      omega

theorem length_key_le {log : Log} {a : Bytes × Version} (h : a ∈ log.appends) :
    a.1.length ≤ log.weight := by
  have hall := appendWeight_le log
  obtain ⟨front, back, happends⟩ := List.append_of_mem h
  rw [happends, List.map_append, List.map_cons, List.sum_append, List.sum_cons, appendWeight] at hall
  omega

end Log

namespace Table

variable {t u : Table} {f : Format} {log : Log}

theorem Follows.inMemory (h : t.Follows f log) (hroom : log.weight + 64 < 2 ^ 64) :
    t.store.InMemory := by
  have := Log.appendWeight_le log
  exact h.store.inMemory (by omega)

theorem Follows.alike (h : t.Follows f log) (htu : t.Alike u) (hu : u.store.Valid) :
    u.Follows f log where
  format := htu.format.trans h.format
  valid := h.valid
  store := h.store.alike htu.store hu
  ledger := htu.ledger ▸ h.ledger
  keys := h.keys

end Table

namespace Session

variable {s : Session} {f : Format} {log : Log}

private theorem weight_written_le (s : Session) (txn : Option Nat) (key : Key)
    (value : Option Bytes) :
    (s.written txn key value).weight ≤ 64 + key.encode.length + (value.getD []).length := by
  rw [written]
  split
  next txn _ =>
    have hweight : ∀ id, appendWeight (key.encode, ⟨id, value⟩) =
        41 + key.encode.length + (value.getD []).length := by
      intro id
      simp only [appendWeight, Version.weight]
      omega
    cases txn with
    | some txn =>
      show appendWeight (key.encode, ⟨txn.id, value⟩) + 0 ≤ _
      rw [hweight]
      omega
    | none =>
      show 0 + (appendWeight (key.encode, ⟨_, value⟩) + (1 + 0)) ≤ _
      rw [hweight]
      omega
  next => exact Nat.zero_le _

theorem weight_events_le (s : Session) (call : Call) :
    (s.events call).weight ≤ call.footprint := by
  have hge := call.footprint_ge
  unfold events
  split
  next =>
    show 1 + 0 ≤ _
    omega
  next i target _ => cases s.txns[i]? <;> exact Nat.zero_le _
  next txn key value _ => exact weight_written_le s txn key (some value)
  next txn key _ => exact weight_written_le s txn key none
  next => exact Nat.zero_le _

private theorem onCursor_alike (i : Nat) (call : CursorCall) (hs : s.table.store.Valid)
    (hm : s.table.store.InMemory) :
    s.table.Alike (s.onCursor i call).2.table ∧ (s.onCursor i call).2.table.store.Valid ∧
      (s.onCursor i call).2.txns = s.txns := by
  rw [onCursor]
  cases hc : s.cursors[i]? with
  | none => exact ⟨.refl s.table, hs, rfl⟩
  | some c =>
    obtain ⟨halike, hvalid⟩ := call.run_alike (s := ⟨c, s.table⟩) hs hm
    exact ⟨halike, hvalid, rfl⟩

/-- Calls that neither write nor concern transactions leave records and transactions as they are. -/
theorem run_alike {call : Call} (hs : s.table.store.Valid) (hm : s.table.store.InMemory)
    (hquiet : call.isEventful = false) (hraw : call.isRaw = false) :
    s.table.Alike (s.run call).2.table ∧ (s.run call).2.table.store.Valid ∧
      (s.run call).2.txns = s.txns ∧ s.events call = [] := by
  cases call with
  | txn call => cases hquiet
  | insert txn key value => cases hquiet
  | remove txn key => cases hquiet
  | store call =>
    have happended : call.appended? = none := by
      cases call with
      | append key v => cases hraw
      | _ => rfl
    obtain ⟨halike, hvalid, -⟩ := Store.run_alike hs hm happended
    exact ⟨⟨rfl, rfl, halike⟩, hvalid, rfl, rfl⟩
  | stats => exact ⟨.refl s.table, hs, rfl, rfl⟩
  | openCursor options => exact ⟨⟨rfl, rfl, .refl _⟩, hs, rfl, rfl⟩
  | closeCursor i =>
    obtain ⟨halike, hvalid, htxns⟩ := onCursor_alike i .reset hs hm
    exact ⟨halike, hvalid, htxns, rfl⟩
  | setTxn i txn =>
    rw [run]
    cases s.txn? txn with
    | none => exact ⟨.refl s.table, hs, rfl, rfl⟩
    | some txn =>
      obtain ⟨halike, hvalid, htxns⟩ := onCursor_alike i (.setTxn txn) hs hm
      exact ⟨halike, hvalid, htxns, rfl⟩
  | cursor i call =>
    obtain ⟨halike, hvalid, htxns⟩ := onCursor_alike i call hs hm
    exact ⟨halike, hvalid, htxns, rfl⟩

theorem Follows.run (h : s.Follows f log) {call : Call} (hraw : call.isRaw = false)
    (hroom : log.weight + call.footprint < 2 ^ 64) :
    (s.run call).2.Follows f (s.events call ++ log) := by
  have hge := call.footprint_ge
  have hbegun := log.begun_le
  cases hcall : call.isEventful with
  | true => exact h.eventful (by omega) hcall
  | false =>
    have hm := h.table.inMemory (by omega)
    obtain ⟨halike, hvalid, htxns, hevents⟩ := run_alike h.table.store.valid hm hcall hraw
    rw [hevents]
    refine ⟨h.table.alike halike hvalid, ?_, ?_⟩
    · rw [htxns]
      exact h.opened
    · rw [htxns]
      exact h.distinct

theorem weight_next_le (s : Session) (log : Log) (call : Call) (calls : List Call) :
    Log.weight (s.events call ++ log) + Call.footprints calls ≤
      log.weight + Call.footprints (call :: calls) := by
  have hevents := weight_events_le s call
  rw [Log.weight_append, Call.footprints_cons]
  omega

/-- The log of a run weighs no more than its calls. -/
theorem weight_log_le (s : Session) (log : Log) (calls : List Call) :
    Log.weight (s.log calls ++ log) ≤ log.weight + Call.footprints calls := by
  induction calls generalizing s log with
  | nil => exact Nat.le_refl _
  | cons call calls ih =>
    have hrest := ih (s.run call).2 (s.events call ++ log)
    rw [← List.append_assoc] at hrest
    exact Nat.le_trans hrest (weight_next_le s log call calls)

/-- Any run of calls keeps session and log together. -/
theorem Follows.after (h : s.Follows f log) {calls : List Call}
    (hraw : ∀ call ∈ calls, call.isRaw = false)
    (hroom : log.weight + Call.footprints calls < 2 ^ 64) :
    (s.after calls).Follows f (s.log calls ++ log) := by
  induction calls generalizing s log with
  | nil => exact h
  | cons call calls ih =>
    have hnext := weight_next_le s log call calls
    have hcall : log.weight + call.footprint < 2 ^ 64 := by
      rw [Call.footprints_cons] at hroom
      omega
    have hstep := h.run (hraw call List.mem_cons_self) hcall
    have hrest := ih hstep (fun c hc => hraw c (List.mem_cons_of_mem call hc))
      (Nat.lt_of_le_of_lt hnext hroom)
    rw [← List.append_assoc] at hrest
    exact hrest

end Session

end Keyspan
