import Keyspan.Proofs.Bound.Interval
import Keyspan.Proofs.Outcome
import Keyspan.Session.CursorCall

/-!
Calls that change a cursor alone.

They stage a key, change bounds and come back from a bound in steps of their own, and what a step has
written stays written. Yet each of them checks first and writes last, so that one that fails has changed
nothing, and each is told by its outcome.
-/

set_option autoImplicit false
set_option relaxedAutoImplicit false

namespace Keyspan

namespace Bounds

variable {f : Format} {side : Side} {inclusive : Bool}

private theorem atomic_setPacked {key : Bytes} : Atomic (setPacked f side key inclusive) :=
  fun _ _ _ h => (setPacked_run_eq_error_iff.1 h).1

private theorem atomic_set {key : Key} : Atomic (set f side key inclusive) := by
  intro b e b' h
  rcases set_run_eq_error_iff.1 h with ⟨hb, -⟩ | ⟨-, h⟩
  · exact hb
  · exact atomic_setPacked b e b' h

end Bounds

namespace Cursor

variable {f : Format} {call : BoundsM Unit}

/-- The cursor with other bounds. One that was stopped by a bound is back at what it held. -/
def withBounds (c : Cursor) (bounds : Bounds) : Cursor :=
  { c with bounds := bounds, place := c.place.reopen }

/-- Changes bounds, and comes back from the bound that had stopped the cursor. -/
def rebound (call : BoundsM Unit) : CursorM Unit := do
  onBounds call
  modify reopen

private theorem atomic_onBounds (h : Atomic call) : Atomic (onBounds call) := by
  intro c e d hrun
  rw [EStateM.run, onBounds] at hrun
  cases hcall : call.run c.bounds with
  | ok _ b =>
    rw [hcall] at hrun
    cases hrun
  | error e' b =>
    rw [hcall] at hrun
    cases hrun
    rw [h c.bounds e b hcall]

private theorem atomic_rebound (h : Atomic call) : Atomic (rebound call) :=
  (atomic_onBounds h).then_modify reopen

private theorem outcome_rebound (call : BoundsM Unit) (c : Cursor) :
    outcome (rebound call) c = (outcome call c.bounds).map c.withBounds := by
  rw [rebound, outcome_then_modify, outcome, outcome, EStateM.run, onBounds]
  cases call.run c.bounds <;> rfl

theorem atomic_setKey (f : Format) (key : Key) : Atomic (setKey f key) := by
  rw [setKey]
  split
  · exact .modify _
  · exact .throw _

theorem outcome_setKey (f : Format) (key : Key) (c : Cursor) :
    outcome (setKey f key) c = (f.packKey key).map fun packed => { c with staged := some packed } := by
  rw [setKey]
  cases f.packKey key <;> rfl

theorem atomic_setBound (f : Format) (side : Side) (key : Key) (inclusive : Bool) :
    Atomic (setBound f side key inclusive) :=
  atomic_rebound Bounds.atomic_set

theorem outcome_setBound (f : Format) (side : Side) (key : Key) (inclusive : Bool) (c : Cursor) :
    outcome (setBound f side key inclusive) c =
      (outcome (Bounds.set f side key inclusive) c.bounds).map c.withBounds :=
  outcome_rebound _ c

theorem atomic_applyBound (f : Format) (request : BoundRequest) : Atomic (applyBound f request) := by
  rw [applyBound]
  cases request.action with
  | clear => exact .modify _
  | set =>
    refine .get_bind fun c => ?_
    split
    · exact .throw _
    · exact .throw _
    · exact atomic_rebound Bounds.atomic_setPacked

theorem outcome_applyBound (f : Format) (request : BoundRequest) (c : Cursor) :
    outcome (applyBound f request) c =
      match request.action with
      | .clear => .ok (c.clearBound request.side)
      | .set =>
        match request.side, c.staged with
        | none, _ => .error (.invalidArgument .missingSide)
        | some _, none => .error .keyNotSet
        | some side, some key =>
          (outcome (Bounds.setPacked f side key request.inclusive) c.bounds).map c.withBounds := by
  rw [applyBound]
  cases request.action with
  | clear => rfl
  | set =>
    cases request.side with
    | none => rfl
    | some side =>
      obtain ⟨id, options, bounds, place, staged, txn⟩ := c
      cases staged with
      | none => rfl
      | some key => exact outcome_rebound _ _

theorem atomic_configureBound (f : Format) (config : String) : Atomic (configureBound f config) := by
  rw [configureBound]
  split
  · exact atomic_applyBound f _
  · exact .throw _

end Cursor

namespace CursorCall

def taken (c : Cursor) : Except Error Cursor → Reply × Cursor
  | .ok c' => (.done, c')
  | .error e => (.failed e, c)

/-- An atomic call takes the cursor that it comes to, or leaves the one there was. -/
theorem change_eq_taken {call : CursorM Unit} (h : Atomic call) (s : Scan) :
    change s call = ((taken s.cursor (outcome call s.cursor)).1,
      ⟨(taken s.cursor (outcome call s.cursor)).2, s.table⟩) := by
  rw [change, h.run_eq]
  cases outcome call s.cursor <;> rfl

theorem change_rebound (s : Scan) (call : BoundsM Unit) : change s (Cursor.rebound call) =
    match call.run s.cursor.bounds with
    | .ok _ b => (.done, { s with cursor := s.cursor.withBounds b })
    | .error e b => (.failed e, { s with cursor.bounds := b }) := by
  rw [change, Cursor.rebound, EStateM.run_bind, EStateM.run, Cursor.onBounds]
  cases call.run s.cursor.bounds <;> rfl

theorem change_table (s : Scan) (call : CursorM Unit) : (change s call).2.table = s.table := by
  rw [change]
  split <;> rfl

theorem cursor_of_change_failed {call : CursorM Unit} (h : Atomic call) {s : Scan} {e : Error}
    (hfailed : (change s call).1 = .failed e) : (change s call).2.cursor = s.cursor := by
  rw [change_eq_taken h] at hfailed ⊢
  cases houtcome : outcome call s.cursor with
  | ok c =>
    rw [houtcome] at hfailed
    cases hfailed
  | error e => rfl

end CursorCall

end Keyspan
