import Keyspan.Proofs.Store.Twins
import Keyspan.Proofs.Table.Write

set_option autoImplicit false
set_option relaxedAutoImplicit false

namespace Keyspan.Table

structure Twins (t u : Table) : Prop where
  format : u.format = t.format
  ledger : u.ledger = t.ledger
  scans : u.scans = t.scans
  nextCursor : u.nextCursor = t.nextCursor
  store : t.store.Twins u.store

variable {t u : Table}

theorem twins_empty (f : Format) (paging paging' : Paging) :
    (empty f paging).Twins (empty f paging') :=
  ⟨rfl, rfl, rfl, rfl, Store.twins_empty _ _ _⟩

theorem Twins.symm (h : t.Twins u) : u.Twins t :=
  ⟨h.format.symm, h.ledger.symm, h.scans.symm, h.nextCursor.symm, h.store.symm⟩

private theorem Twins.setLedger (h : t.Twins u) (l : Ledger) :
    Twins { t with ledger := l } { u with ledger := l } :=
  ⟨h.format, rfl, h.scans, h.nextCursor, h.store⟩

theorem Twins.setStore (h : t.Twins u) {s s' : Store} (hs : s.Twins s') :
    Twins { t with store := s } { u with store := s' } :=
  ⟨h.format, h.ledger, h.scans, h.nextCursor, hs⟩

private theorem agree_append (key : Bytes) (v : Version) :
    Agree Twins (onStore (Store.append key v)) (onStore (Store.append key v)) := by
  intro t u h
  have happend := h.store.append key v
  show Matching Twins (onStore _ t) (onStore _ u)
  unfold onStore
  generalize (Store.append key v).run t.store = r at happend
  generalize (Store.append key v).run u.store = q at happend
  cases happend with
  | ok hs => exact .ok (h.setStore hs)
  | error hs => exact .error (h.setStore hs)

theorem writable_twins : Writable Twins where
  format := Twins.format
  ledger := Twins.ledger
  setLedger := Twins.setLedger
  append := agree_append

end Keyspan.Table
