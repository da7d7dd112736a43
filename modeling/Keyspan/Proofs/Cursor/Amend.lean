import Keyspan.Proofs.Cursor.Effect

set_option autoImplicit false
set_option relaxedAutoImplicit false

namespace Keyspan

namespace Place

def isStopped (p : Place) : Bool :=
  match p.position with
  | .exhausted _ _ => true
  | _ => false

variable {p : Place} {d : Direction} {k : Option Anchor}

theorem isStopped_iff : p.isStopped = true ↔ ∃ d k, p.position = .exhausted d k := by
  rw [isStopped]
  cases p.position with
  | exhausted d k => exact ⟨fun _ => ⟨d, k, rfl⟩, fun _ => rfl⟩
  | _ => simp

theorem position_ne_of_isStopped (h : p.isStopped = false) : p.position ≠ .exhausted d k :=
  fun hp => Bool.eq_false_iff.1 h (isStopped_iff.2 ⟨d, k, hp⟩)

theorem isStopped_reopen (p : Place) : p.reopen.isStopped = false := by
  obtain ⟨position, current, parked⟩ := p
  cases position with
  | exhausted d k => cases k <;> rfl
  | _ => rfl

end Place

inductive Amendment
  | stage (key : Bytes)
  | rebound (bounds : Bounds)

def Cursor.amend (c : Cursor) : Amendment → Cursor
  | .stage key => { c with staged := some key }
  | .rebound bounds => c.withBounds bounds

def BoundRequest.amendment (request : BoundRequest) (f : Format) (bounds : Bounds)
    (staged : Option Bytes) : Except Error Amendment :=
  match request.action with
  | .clear => .ok (.rebound (bounds.clear request.side))
  | .set =>
    match request.side, staged with
    | none, _ => .error (.invalidArgument .missingSide)
    | some _, none => .error .keyNotSet
    | some side, some key =>
      (outcome (Bounds.setPacked f side key request.inclusive) bounds).map .rebound

namespace CursorCall

/-- The calls on bounds and on the staged key. -/
def isBounding : CursorCall → Bool
  | setKey _ => true
  | configureBound _ => true
  | applyBound _ => true
  | setBound _ _ _ => true
  | clearBound _ => true
  | _ => false

def amendment? (f : Format) (bounds : Bounds) (staged : Option Bytes) :
    CursorCall → Option (Except Error Amendment)
  | setKey key => some ((f.packKey key).map .stage)
  | configureBound config =>
    match BoundRequest.parse config with
    | .ok request => some (request.amendment f bounds staged)
    | .error fault => some (.error (.invalidArgument (.config fault)))
  | applyBound request => some (request.amendment f bounds staged)
  | setBound side key inclusive =>
    some ((outcome (Bounds.set f side key inclusive) bounds).map .rebound)
  | clearBound side => some (.ok (.rebound (bounds.clear side)))
  | _ => none

private theorem isSome_amendment? (f : Format) (bounds : Bounds) (staged : Option Bytes)
    (call : CursorCall) : (call.amendment? f bounds staged).isSome = call.isBounding := by
  cases call with
  | configureBound config =>
    rw [amendment?]
    cases BoundRequest.parse config <;> rfl
  | _ => rfl

end CursorCall

private theorem Cursor.outcome_applyBound_eq (f : Format) (c : Cursor) (request : BoundRequest) :
    outcome (applyBound f request) c = (request.amendment f c.bounds c.staged).map c.amend := by
  rw [outcome_applyBound]
  unfold BoundRequest.amendment
  cases request.action with
  | clear => rfl
  | set =>
    cases request.side with
    | none => rfl
    | some side =>
      cases c.staged with
      | none => rfl
      | some key =>
        dsimp only
        cases outcome (Bounds.setPacked f side key request.inclusive) c.bounds <;> rfl

namespace CursorCall

/-- A call on bounds makes the change that it stands for, or none. -/
theorem effect_of_amendment? {call : CursorCall} {s : Scan} {r : Except Error Amendment}
    (h : call.amendment? s.table.format s.cursor.bounds s.cursor.staged = some r) :
    call.effect s = taken s.cursor (r.map s.cursor.amend) := by
  cases call with
  | setKey key =>
    obtain rfl := Option.some.inj h
    rw [effect, Cursor.outcome_setKey]
    cases s.table.format.packKey key <;> rfl
  | configureBound config =>
    rw [amendment?] at h
    rw [effect, Cursor.configureBound]
    cases hparse : BoundRequest.parse config with
    | ok request =>
      rw [hparse] at h
      obtain rfl := Option.some.inj h
      exact congrArg (taken s.cursor) (Cursor.outcome_applyBound_eq s.table.format s.cursor request)
    | error fault =>
      rw [hparse] at h
      obtain rfl := Option.some.inj h
      rfl
  | applyBound request =>
    obtain rfl := Option.some.inj h
    exact congrArg (taken s.cursor) (Cursor.outcome_applyBound_eq s.table.format s.cursor request)
  | setBound side key inclusive =>
    obtain rfl := Option.some.inj h
    rw [effect, Cursor.outcome_setBound]
    cases outcome (Bounds.set s.table.format side key inclusive) s.cursor.bounds <;> rfl
  | clearBound side =>
    obtain rfl := Option.some.inj h
    rfl
  | _ => cases h

theorem run_of_amendment? {call : CursorCall} {s : Scan} {r : Except Error Amendment}
    (h : call.amendment? s.table.format s.cursor.bounds s.cursor.staged = some r) :
    call.run s = ((taken s.cursor (r.map s.cursor.amend)).1,
      ⟨(taken s.cursor (r.map s.cursor.amend)).2, s.table⟩) := by
  have hrun : call.run s = ((call.effect s).1, ⟨(call.effect s).2, s.table⟩) := by
    cases call with
    | setKey key => exact change_eq_taken (Cursor.atomic_setKey _ key) s
    | configureBound config => exact change_eq_taken (Cursor.atomic_configureBound _ config) s
    | applyBound request => exact change_eq_taken (Cursor.atomic_applyBound _ request) s
    | setBound side key inclusive =>
      exact change_eq_taken (Cursor.atomic_setBound _ side key inclusive) s
    | clearBound side => rfl
    | _ => cases h
  rw [hrun, effect_of_amendment? h]

private theorem map_rebound_ne_stage (r : Except Error Bounds) (key : Bytes) :
    r.map Amendment.rebound ≠ .ok (.stage key) := by
  cases r <;> exact nofun

private theorem amendment_ne_stage (request : BoundRequest) (f : Format) (bounds : Bounds)
    (staged : Option Bytes) (key : Bytes) :
    request.amendment f bounds staged ≠ .ok (.stage key) := by
  unfold BoundRequest.amendment
  cases request.action with
  | clear => exact nofun
  | set =>
    cases request.side with
    | none => exact nofun
    | some side =>
      cases staged with
      | none => exact nofun
      | some staged => exact map_rebound_ne_stage _ key

theorem exists_setKey_of_stage {call : CursorCall} {f : Format} {bounds : Bounds}
    {staged : Option Bytes} {key : Bytes}
    (h : call.amendment? f bounds staged = some (.ok (.stage key))) : ∃ k, call = .setKey k := by
  cases call with
  | setKey k => exact ⟨k, rfl⟩
  | configureBound config =>
    rw [amendment?] at h
    split at h
    · exact absurd (Option.some.inj h) (amendment_ne_stage _ f bounds staged key)
    · cases h
  | applyBound request =>
    exact absurd (Option.some.inj h) (amendment_ne_stage request f bounds staged key)
  | setBound side k inclusive => exact absurd (Option.some.inj h) (map_rebound_ne_stage _ key)
  | clearBound side => cases h
  | _ => cases h

theorem exists_amendment {call : CursorCall} (h : call.isBounding = true) (s : Scan) :
    ∃ r, call.amendment? s.table.format s.cursor.bounds s.cursor.staged = some r := by
  rw [← Option.isSome_iff_exists, isSome_amendment?]
  exact h

theorem run_setTxn {call : CursorCall} (hcall : call.isBounding = true) (s : Scan)
    (txn : Option Transaction) :
    call.run ⟨s.cursor.setTxn txn, s.table⟩ = ((call.run s).1,
      ⟨(call.run s).2.cursor.setTxn txn, (call.run s).2.table⟩) := by
  obtain ⟨r, hr⟩ := exists_amendment hcall s
  rw [run_of_amendment? hr, run_of_amendment? (s := ⟨s.cursor.setTxn txn, s.table⟩) hr]
  rcases r with e | (key | bounds)
  · rfl
  · rfl
  · rfl

end CursorCall

end Keyspan
