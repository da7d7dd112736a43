import Keyspan.Proofs.Session.Run
import Keyspan.Proofs.Table.Write

set_option autoImplicit false
set_option relaxedAutoImplicit false

namespace Keyspan

/-- A table of this format, with a valid store in its order. -/
structure Table.Sound (t : Table) (f : Format) : Prop where
  format : t.format = f
  ordered : t.store.order = .typed f
  valid : t.store.Valid

namespace Table

variable {t u : Table} {f : Format}

theorem sound_empty (f : Format) (paging : Paging) : (empty f paging).Sound f :=
  ⟨rfl, rfl, Store.valid_empty _ _⟩

private theorem Sound.alike (h : t.Sound f) (htu : t.Alike u) (hu : u.store.Valid) : u.Sound f :=
  ⟨htu.format.trans h.format, htu.store.order.trans h.ordered, hu⟩

private theorem Sound.append (h : t.Sound f) (key : Bytes) (v : Version) :
    ∃ s, (Store.append key v).run t.store = .ok () s ∧ Sound { t with store := s } f := by
  obtain ⟨s, hrun, horder, -, -, hs⟩ := Store.append_run h.valid key v
  exact ⟨s, hrun, h.format, horder.trans h.ordered, hs⟩

theorem writable_sound (f : Format) : Writable fun t u => u = t ∧ t.Sound f where
  format h := h.1 ▸ rfl
  ledger h := h.1 ▸ rfl
  setLedger h _ := ⟨h.1 ▸ rfl, h.2.format, h.2.ordered, h.2.valid⟩
  append key v := by
    rintro t _ ⟨rfl, h⟩
    obtain ⟨s, hrun, hs⟩ := h.append key v
    show Matching _ (onStore _ _) (onStore _ _)
    rw [onStore, hrun]
    exact .ok ⟨rfl, hs⟩

private theorem Sound.write (h : t.Sound f) (txn : Option Transaction) (key : Key)
    (value : Option Bytes) : (finalState ((write txn key value).run t)).Sound f := by
  have hwrite := (writable_sound f).write txn key value t t ⟨rfl, h⟩
  generalize (Table.write txn key value).run t = r at hwrite
  cases hwrite with
  | ok hend => exact hend.2
  | error hend => exact hend.2

end Table

namespace Session

variable {s : Session} {f : Format}

private theorem sound_write (h : s.table.Sound f) (txn : Option Nat) (key : Key)
    (value : Option Bytes) :
    (s.write txn key value).2.table.Sound f := by
  rw [write]
  cases s.txn? txn with
  | none => exact h
  | some txn =>
    have hwrite := h.write txn key value
    dsimp only
    generalize (Table.write txn key value).run s.table = r at hwrite
    cases r <;> exact hwrite

/-- Any call leaves a sound table, if memory holds what is in it. -/
theorem sound_run (h : s.table.Sound f) (hm : s.table.store.InMemory) (call : Call) :
    (s.run call).2.table.Sound f := by
  cases hcall : call.isEventful with
  | true =>
    cases call with
    | txn call => exact ⟨h.format, h.ordered, h.valid⟩
    | insert txn key value => exact sound_write h txn key (some value)
    | remove txn key => exact sound_write h txn key none
    | _ => cases hcall
  | false =>
    cases hraw : call.isRaw with
    | false =>
      obtain ⟨halike, hvalid, -⟩ := run_alike h.valid hm hcall hraw
      exact h.alike halike hvalid
    | true =>
      cases call with
      | store call =>
        cases call with
        | append key v =>
          obtain ⟨u, hrun, hu⟩ := h.append key v
          have hstore : (s.run (.store (.append key v))).2.table =
              { s.table with store := u } := by
            simp only [run, StoreCall.run, StoreCall.answer, hrun]
          rw [hstore]
          exact hu
        | _ => cases hraw
      | _ => cases hraw

theorem sound_after (h : s.table.Sound f) {calls : List Call}
    (hm : ∀ n < calls.length, (s.after (calls.take n)).table.store.InMemory) :
    (s.after calls).table.Sound f := by
  induction calls generalizing s with
  | nil => exact h
  | cons call calls ih =>
    refine ih (sound_run h (hm 0 (Nat.succ_pos _)) call) fun n hn => ?_
    exact hm (n + 1) (Nat.succ_lt_succ hn)

end Session

end Keyspan
