import Keyspan.Proofs.Outcome
import Keyspan.Table

set_option autoImplicit false
set_option relaxedAutoImplicit false

namespace Keyspan.Table

/-- A relation between tables with one format and one ledger that appends pass on. -/
structure Writable (R : Table → Table → Prop) : Prop where
  format : ∀ {t u : Table}, R t u → u.format = t.format
  ledger : ∀ {t u : Table}, R t u → u.ledger = t.ledger
  setLedger : ∀ {t u : Table}, R t u → ∀ l, R { t with ledger := l } { u with ledger := l }
  append : ∀ key v, Agree R (onStore (Store.append key v)) (onStore (Store.append key v))

namespace Writable

variable {R : Table → Table → Prop} (h : Writable R)
include h

private theorem begin (ignorePrepare : Bool) :
    Agree R (begin ignorePrepare) (begin ignorePrepare) := by
  refine .get_bind fun t u htu => ?_
  rw [h.ledger htu]
  exact .ok (h.setLedger htu _)

private theorem move (txn : Transaction) (target : TxnState) :
    Agree R (move txn target) (move txn target) := by
  refine .get_bind fun t u htu => ?_
  rw [h.ledger htu]
  cases t.ledger.move txn target with
  | ok l => exact .ok (h.setLedger htu l)
  | error e => exact .error htu

private theorem writeIn (txn : Transaction) (packed : Bytes) (value : Option Bytes) :
    Agree R (writeIn txn packed value) (writeIn txn packed value) := by
  refine .get_bind fun t u htu => ?_
  rw [h.ledger htu]
  dsimp only
  split
  · exact .error htu
  · exact h.append _ _ t u htu

private theorem writeAlone (packed : Bytes) (value : Option Bytes) :
    Agree R (writeAlone packed value) (writeAlone packed value) := by
  refine (h.begin false).bind fun txn => ?_
  refine ((h.append _ _).tryCatch fun e => ?_).bind fun _ => h.move _ _
  exact (h.move _ _).bind fun _ => .throw e

theorem write (txn : Option Transaction) (key : Key) (value : Option Bytes) :
    Agree R (write txn key value) (write txn key value) := by
  refine .get_bind fun t u htu => ?_
  rw [h.format htu]
  cases t.format.packKey key with
  | error e => exact .error htu
  | ok packed =>
    cases txn with
    | some txn => exact h.writeIn txn packed value t u htu
    | none => exact h.writeAlone packed value t u htu

end Writable

end Keyspan.Table
