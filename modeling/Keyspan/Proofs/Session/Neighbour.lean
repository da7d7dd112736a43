import Keyspan.Proofs.Compression.Literal
import Keyspan.Proofs.Cursor.Deciding
import Keyspan.Proofs.Session.Peers
import Keyspan.Proofs.Session.Sound

/-!
What one step of a cursor does, wherever earlier calls have left it.

The record that decides the step is returned or refused. Where there is none, the cursor stops at the
bound ahead or leaves the table, and which of the two depends on what is stored past that bound.
-/

set_option autoImplicit false
set_option relaxedAutoImplicit false

namespace Keyspan.Session

/-- The step replies so and leaves its cursor so. It changes nothing else but what was counted and where
pages are. -/
def StepsTo (s : Session) (i : Nat) (dir : Direction) (reply : Reply) (c : Cursor) : Prop :=
  ∃ t, s.table.Alike t ∧ t.nextCursor = s.table.nextCursor ∧
    s.run (.cursor i dir.call) = (reply, { s with table := t, cursors := s.cursors.set i c })

variable {s : Session} {i : Nat} {c : Cursor} {dir : Direction}

theorem run_step {t : Table} {r : Except Error (Option Entry) × Place} (hc : s.cursors[i]? = some c)
    (hrun : (Scan.step dir).run ⟨c, s.table⟩ = Scan.ends ⟨c, s.table⟩ t r) :
    s.run (.cursor i dir.call) = ((CursorCall.told c .entry r).1,
      { s with table := t, cursors := s.cursors.set i (CursorCall.told c .entry r).2 }) := by
  obtain ⟨result, p⟩ := r
  cases result with
  | ok e => exact run_step_ok hc dir hrun
  | error e => exact run_step_error hc dir hrun

private theorem stepsTo_of_run {t : Table} {r : Except Error (Option Entry) × Place}
    (hc : s.cursors[i]? = some c) (hst : s.table.Alike t)
    (hrun : (Scan.step dir).run ⟨c, s.table⟩ = Scan.ends ⟨c, s.table⟩ t r) :
    s.StepsTo i dir (CursorCall.told c .entry r).1 (CursorCall.told c .entry r).2 := by
  have hnext := Scan.keeps_nextCursor.step dir ⟨c, s.table⟩
  refine ⟨t, hst, ?_, run_step hc hrun⟩
  obtain ⟨result, p⟩ := r
  rw [hrun] at hnext
  cases result <;> exact hnext

/-- What a step of a cursor does, whatever calls have led to where it stands. A cursor that was stopped in
this direction stays as it is. Of any other one the step returns the record that decides it and puts the
cursor on its key, or fails and leaves the cursor alone if another transaction has prepared an update of
that key. Where no record decides, the step finds nothing: the cursor stops, and keeps the key that it
returned last, if some stored key that the walk may start with is past the bound ahead, and it leaves the
table otherwise. -/
theorem step_decided (f : Format) (paging : Paging) (calls : List Call)
    (reached : s = (fresh f paging).after calls)
    (memory : ∀ n < calls.length,
      ((fresh f paging).after (calls.take n)).table.store.InMemory)
    (unpacks : ∀ r ∈ s.table.store.records, ∃ key, f.unpackKey r.key = .ok key)
    (opened : s.cursors[i]? = some c)
    (unprepared : ∀ txn, c.txn = some txn → s.table.ledger.state txn ≠ .prepared)
    (fits : c.options.releaseEvict = true → s.table.store.Fits) :
    (∀ last, c.position = .exhausted dir last →
      s.run (.cursor i dir.call) = (.entry none, s)) ∧
    ((∀ last, c.position ≠ .exhausted dir last) →
      match Scan.deciding? ⟨c, s.table⟩ dir with
      | some r =>
        match s.table.judge (Scan.reader ⟨c, s.table⟩) r with
        | .value b => ∃ key, f.unpackKey r.key = .ok key ∧
            s.StepsTo i dir (.entry (some ⟨key, b⟩)) { c with place := .on ⟨r.key, b⟩ }
        | .conflict => s.StepsTo i dir (.failed (.preparedConflict (f.describe r.key))) c
        | .hidden => False
      | none =>
        ((∃ r ∈ s.table.store.records, c.startsWith dir f r.key = true ∧
            dir.admits f c.bounds r.key = false) →
          s.StepsTo i dir (.entry none) { c with place :=
            { position := .exhausted dir c.position.last, current := none,
              parked := c.current.or c.place.parked } }) ∧
        ((∀ r ∈ s.table.store.records, c.startsWith dir f r.key = true →
            dir.admits f c.bounds r.key = true) →
          s.StepsTo i dir (.entry none)
            { c with place := { position := .unpositioned, current := none, parked := none } })) := by
  have hsound : s.table.Sound f :=
    reached ▸ sound_after (Table.sound_empty f paging) memory
  obtain ⟨rfl, hordered, hvalid⟩ := hsound
  constructor
  · intro last hlast
    have hstopped : Scan.isExhausted dir ⟨c, s.table⟩ = true := Scan.isExhausted_iff.2 ⟨last, hlast⟩
    have hunprepared : Scan.heldUp ⟨c, s.table⟩ = false := Scan.heldUp_eq_false unprepared
    rw [run_step_ok opened dir (Scan.step_run_exhausted hunprepared hstopped)]
    obtain ⟨hi, rfl⟩ := List.getElem?_eq_some_iff.1 opened
    rw [List.set_getElem_self hi]
  · intro hopen
    have hopen' : Scan.isExhausted dir ⟨c, s.table⟩ = false := by
      rw [Bool.eq_false_iff]
      intro hstopped
      obtain ⟨last, hlast⟩ := Scan.isExhausted_iff.1 hstopped
      exact hopen last hlast
    obtain ⟨t, hst, -, hrun⟩ := Scan.step_run (s := ⟨c, s.table⟩) dir hvalid fits unprepared hopen'
    have hsteps := stepsTo_of_run opened hst hrun
    have hcases := @Scan.result_cases_deciding ⟨c, s.table⟩ dir hordered hvalid unpacks
    rcases hcases with ⟨r, key, b, hr, hj, hkey, hresult⟩ | ⟨r, hr, hj, hresult⟩ |
        ⟨hnone, hpast, hresult⟩ | ⟨hnone, hall, hresult⟩
    · rw [hresult] at hsteps
      rw [hr]
      dsimp only at hj ⊢
      rw [hj]
      exact ⟨key, hkey, hsteps⟩
    · rw [hresult] at hsteps
      rw [hr]
      dsimp only at hj ⊢
      rw [hj]
      exact hsteps
    · rw [hresult] at hsteps
      rw [hnone]
      refine ⟨fun _ => hsteps, fun hall => ?_⟩
      obtain ⟨r, hr, hstart, hout⟩ := hpast
      exact absurd ((hall r hr hstart).symm.trans hout) (by decide)
    · rw [hresult] at hsteps
      rw [hnone]
      refine ⟨fun ⟨r, hr, hstart, hout⟩ => ?_, fun _ => hsteps⟩
      exact absurd ((hall r hr hstart).symm.trans hout) (by decide)

/-- Three cursors: one that its lower bound has overtaken, one before a prepared update, and one before
its upper bound. -/
def crossroads : List Call :=
  [.insert none (.int 1) [10], .insert none (.int 3) [30], .insert none (.int 7) [70], .openCursor {},
    .openCursor {}, .openCursor {}, .cursor 0 .next, .cursor 1 .next, .cursor 1 .next, .cursor 2 .next,
    .cursor 2 .next, .txn (.begin false), .insert (some 0) (.int 5) [50], .txn (.move 0 .prepared),
    .cursor 0 (.setBound .lower (.int 2) true), .cursor 2 (.setBound .upper (.int 4) false)]

theorem step_decided_crossroads :
    let f : Format := ⟨[.int], by decide⟩
    let s := (fresh f { codec := Snappy.codec }).after crossroads
    let three : Held := ⟨Key.encode (.int 3), [30]⟩
    let c : Cursor := { id := 2, options := {}, place := .on three }
    let behind : Cursor := { c with
      id := 1
      bounds := { lower := some ⟨Key.encode (.int 2), true⟩ }
      place := .on ⟨Key.encode (.int 1), [10]⟩ }
    let confined : Cursor := { c with
      id := 3
      bounds := { upper := some ⟨Key.encode (.int 4), false⟩ } }
    s.cursors = [behind, c, confined] ∧
      s.StepsTo 0 .forward (.entry (some ⟨.int 3, [30]⟩)) { behind with place := .on three } ∧
      s.StepsTo 1 .forward (.failed (.preparedConflict "5")) c ∧
      s.StepsTo 2 .forward (.entry none) { confined with
        place := { position := .exhausted .forward (some ⟨three.key⟩), current := none, parked := three } } :=
    by
  intro f s three c behind confined
  have hmemory : ∀ n < crossroads.length,
      ((fresh f { codec := Snappy.codec }).after (crossroads.take n)).table.store.InMemory := by
    decide +kernel
  have hunpacks : ∀ r ∈ s.table.store.records, ∃ key, f.unpackKey r.key = .ok key := by
    have hkeys : ∀ r ∈ s.table.store.records,
        f.unpackKey r.key ∈ [1, 3, 5, 7].map fun n => Except.ok (Key.int n) := by
      decide +kernel
    intro r hr
    obtain ⟨n, -, hn⟩ := List.mem_map.1 (hkeys r hr)
    exact ⟨.int n, hn.symm⟩
  have hcursors : s.cursors = [behind, c, confined] := by decide +kernel
  have hopened {i : Nat} {d : Cursor} (h : [behind, c, confined][i]? = some d) :
      s.cursors[i]? = some d := by
    rw [hcursors]
    exact h
  have hfirst :=
    @step_decided s 0 behind .forward f { codec := Snappy.codec } crossroads rfl hmemory hunpacks
      (hopened rfl)
    (fun _ h => nomatch h) (fun h => nomatch h)
  have hsecond :=
    @step_decided s 1 c .forward f { codec := Snappy.codec } crossroads rfl hmemory hunpacks
      (hopened rfl)
    (fun _ h => nomatch h) (fun h => nomatch h)
  have hthird :=
    @step_decided s 2 confined .forward f { codec := Snappy.codec } crossroads rfl hmemory hunpacks
      (hopened rfl)
    (fun _ h => nomatch h) (fun h => nomatch h)
  have hthree : Scan.deciding? ⟨behind, s.table⟩ .forward =
      some ⟨Key.encode (.int 3), [⟨2, some [30]⟩]⟩ := by
    decide +kernel
  have hfive : Scan.deciding? ⟨c, s.table⟩ .forward =
      some ⟨Key.encode (.int 5), [⟨4, some [50]⟩]⟩ := by
    decide +kernel
  have hnone : Scan.deciding? ⟨confined, s.table⟩ .forward = none := by
    decide +kernel
  have hvalue : s.table.judge (Scan.reader ⟨behind, s.table⟩)
      ⟨Key.encode (.int 3), [⟨2, some [30]⟩]⟩ = .value [30] := by
    decide +kernel
  have hconflict : s.table.judge (Scan.reader ⟨c, s.table⟩)
      ⟨Key.encode (.int 5), [⟨4, some [50]⟩]⟩ = .conflict := by
    decide +kernel
  have hpast : ∃ r ∈ s.table.store.records, confined.startsWith .forward f r.key = true ∧
      Direction.forward.admits f confined.bounds r.key = false := by
    decide +kernel
  rw [hthree] at hfirst
  rw [hfive] at hsecond
  rw [hnone] at hthird
  dsimp only at hfirst hsecond hthird
  rw [hvalue] at hfirst
  rw [hconflict] at hsecond
  obtain ⟨key, hkey, hsteps⟩ := hfirst.2 nofun
  have hread : f.unpackKey (Key.encode (.int 3)) = .ok (.int 3) := by decide +kernel
  obtain rfl := Except.ok.inj (hkey.symm.trans hread)
  exact ⟨hcursors, hsteps, hsecond.2 nofun, (hthird.2 nofun).1 hpast⟩

end Keyspan.Session
