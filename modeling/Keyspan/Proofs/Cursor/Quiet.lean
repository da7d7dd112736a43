import Keyspan.Proofs.Cursor.Change
import Keyspan.Proofs.Cursor.Parts
import Keyspan.Proofs.Store.Eviction
import Keyspan.Proofs.Store.Seek

set_option autoImplicit false
set_option relaxedAutoImplicit false

namespace Keyspan

private theorem Store.harmless_seek (m : Seek) : Harmless (seek m) := by
  intro s hs _
  obtain ⟨t, hrun, hst, ht⟩ := seek_run hs m
  exact ⟨t, hst, ht, Or.inl ⟨_, hrun⟩⟩

/-- Tables with the same format, records and transactions. -/
structure Table.Alike (t u : Table) : Prop where
  format : u.format = t.format
  ledger : u.ledger = t.ledger
  store : t.store.Alike u.store

theorem Table.Alike.refl (t : Table) : t.Alike t := ⟨rfl, rfl, .refl t.store⟩

theorem Table.Alike.symm {t u : Table} (h : t.Alike u) : u.Alike t :=
  ⟨h.format.symm, h.ledger.symm, h.store.symm⟩

theorem Table.Alike.trans {t u v : Table} (h : t.Alike u) (k : u.Alike v) : t.Alike v :=
  ⟨k.format.trans h.format, k.ledger.trans h.ledger, h.store.trans k.store⟩

namespace Scan

/-- A cursor call that leaves records and transactions as they are. -/
def Quiet {α : Type} (call : ScanM α) : Prop :=
  ∀ s : Scan, s.table.store.Valid → s.table.store.InMemory →
    ∃ u : Scan, s.table.Alike u.table ∧ u.table.store.Valid ∧
      ((∃ x, call.run s = .ok x u) ∨ ∃ e, call.run s = .error e u)

namespace Quiet

variable {α β : Type}

private theorem pure (x : α) : Quiet (pure x) :=
  fun s hs _ => ⟨s, .refl s.table, hs, Or.inl ⟨x, rfl⟩⟩

private theorem throw (e : Error) : Quiet (throw e : ScanM α) :=
  fun s hs _ => ⟨s, .refl s.table, hs, Or.inr ⟨e, rfl⟩⟩

private theorem get : Quiet get :=
  fun s hs _ => ⟨s, .refl s.table, hs, Or.inl ⟨s, rfl⟩⟩

private theorem bind {x : ScanM α} {f : α → ScanM β} (hx : Quiet x) (hf : ∀ a, Quiet (f a)) :
    Quiet (x >>= f) := by
  intro s hs hm
  obtain ⟨t, hst, ht, ⟨a, hrun⟩ | ⟨e, hrun⟩⟩ := hx s hs hm
  · obtain ⟨u, htu, hu, h⟩ := hf a t ht (hst.store.inMemory hm)
    refine ⟨u, hst.trans htu, hu, ?_⟩
    rw [EStateM.run_bind, hrun]
    exact h
  · refine ⟨t, hst, ht, Or.inr ⟨e, ?_⟩⟩
    rw [EStateM.run_bind, hrun]

private theorem place (p : Place) : Quiet (place p) :=
  fun s hs _ => ⟨{ s with cursor.place := p }, .refl s.table, hs, Or.inl ⟨(), rfl⟩⟩

private theorem count (f : ScanStats → ScanStats) : Quiet (count f) :=
  fun s hs _ => ⟨{ s with table.scans := f s.table.scans }, ⟨rfl, rfl, .refl s.table.store⟩, hs,
    Or.inl ⟨(), rfl⟩⟩

private theorem onStore {call : StoreM α} (h : Store.Harmless call) : Quiet (onStore call) := by
  intro s hs hm
  obtain ⟨t, hst, ht, ⟨x, hrun⟩ | ⟨⟨e, hrun⟩, -⟩⟩ := h s.table.store hs hm
  · refine ⟨{ s with table.store := t }, ⟨rfl, rfl, hst⟩, ht, Or.inl ⟨x, ?_⟩⟩
    show Scan.onStore call s = _
    simp only [Scan.onStore, Table.onStore, EStateM.run, show call s.table.store = _ from hrun]
  · refine ⟨{ s with table.store := t }, ⟨rfl, rfl, hst⟩, ht, Or.inr ⟨.ofImage e, ?_⟩⟩
    show Scan.onStore call s = _
    simp only [Scan.onStore, Table.onStore, EStateM.run, show call s.table.store = _ from hrun]

private theorem entire : Entire fun _ call => Quiet call where
  pure := pure
  get := get
  bind := bind
  throw := throw
  count := count
  seek m := onStore (Store.harmless_seek m)
  place := place
  release key := onStore (Store.harmless_release key)

end Quiet

private theorem walk_alike (dir : Direction) (n : Nat) {s : Scan} (hs : s.table.store.Valid)
    (hm : s.table.store.InMemory) :
    s.table.Alike (walk dir n s).2.table ∧ (walk dir n s).2.table.store.Valid := by
  induction n generalizing s with
  | zero => exact ⟨.refl s.table, hs⟩
  | succ n ih =>
    rw [walk]
    obtain ⟨u, hsu, hu, ⟨found, hrun⟩ | ⟨e, hrun⟩⟩ := Quiet.entire.step dir s hs hm
    · rw [hrun]
      cases found with
      | none => exact ⟨hsu, hu⟩
      | some entry =>
        obtain ⟨hrest, hvalid⟩ := ih hu (hsu.store.inMemory hm)
        exact ⟨hsu.trans hrest, hvalid⟩
    · rw [hrun]
      exact ⟨hsu, hu⟩

end Scan

namespace CursorCall

private theorem answer_alike {α : Type} (reply : α → Reply) {call : ScanM α}
    (hcall : Scan.Quiet call) {s : Scan} (hs : s.table.store.Valid)
    (hm : s.table.store.InMemory) :
    s.table.Alike (answer reply call s).2.table ∧ (answer reply call s).2.table.store.Valid := by
  obtain ⟨u, hsu, hu, ⟨x, hrun⟩ | ⟨e, hrun⟩⟩ := hcall s hs hm
  · rw [answer, hrun]
    exact ⟨hsu, hu⟩
  · rw [answer, hrun]
    exact ⟨hsu, hu⟩

/-- No call on a cursor changes records or transactions. -/
theorem run_alike (call : CursorCall) {s : Scan} (hs : s.table.store.Valid)
    (hm : s.table.store.InMemory) :
    s.table.Alike (call.run s).2.table ∧ (call.run s).2.table.store.Valid := by
  have hchange : ∀ edit, s.table.Alike (change s edit).2.table ∧
      (change s edit).2.table.store.Valid := by
    intro edit
    rw [change_table]
    exact ⟨.refl s.table, hs⟩
  cases call with
  | setTxn txn => exact hchange _
  | setKey key => exact hchange _
  | get => exact ⟨.refl s.table, hs⟩
  | configureBound config => exact hchange _
  | applyBound request => exact hchange _
  | setBound side key inclusive => exact hchange _
  | clearBound side => exact hchange _
  | reset => exact hchange _
  | next => exact answer_alike .entry (Scan.Quiet.entire.step .forward) hs hm
  | prev => exact answer_alike .entry (Scan.Quiet.entire.step .backward) hs hm
  | search => exact answer_alike .entry Scan.Quiet.entire.search hs hm
  | searchNear => exact answer_alike .near Scan.Quiet.entire.searchNear hs hm
  | walk dir n => exact Scan.walk_alike dir n hs hm

end CursorCall

end Keyspan
