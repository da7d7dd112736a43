import Keyspan.Proofs.Cursor.Change
import Keyspan.Proofs.Cursor.Search

set_option autoImplicit false
set_option relaxedAutoImplicit false

namespace Keyspan

namespace Scan

variable {s : Scan} {t : Table} {α : Type}

section Alike

variable (h : s.table.Alike t)
include h

theorem heldUp_eq : heldUp ⟨s.cursor, t⟩ = s.heldUp := by
  unfold heldUp
  rw [h.ledger]

theorem originSeek_eq (dir : Direction) : originSeek ⟨s.cursor, t⟩ dir = s.originSeek dir := by
  unfold originSeek
  rw [h.format]

private theorem quarry_eq (dir : Direction) : quarry ⟨s.cursor, t⟩ dir = s.quarry dir := by
  unfold quarry
  rw [originSeek_eq h, reader_eq h, h.judge_eq, h.format, h.ahead_eq]

private theorem result_eq (dir : Direction) : result ⟨s.cursor, t⟩ dir = s.result dir := by
  unfold result
  rw [quarry_eq h, h.format]
  cases s.quarry dir with
  | error r => exact congrArg (fun e => (Except.error e, s.cursor.place)) (conflict_eq h r.key)
  | ok found => cases found <;> rfl

theorem stepped_eq (dir : Direction) : stepped ⟨s.cursor, t⟩ dir = s.stepped dir := by
  unfold stepped
  rw [heldUp_eq h, result_eq h]
  rfl

private theorem keyed_eq (call : Positioning) {r r' : Bytes → Except Error α × Place}
    (hr : ∀ key, r' key = r key) : keyed ⟨s.cursor, t⟩ call r' = s.keyed call r := by
  obtain rfl : r' = r := funext hr
  unfold keyed
  rw [heldUp_eq h]

private theorem searched_eq : searched ⟨s.cursor, t⟩ = s.searched := by
  refine keyed_eq h .search fun key => ?_
  dsimp only
  rw [h.format, h.store.order, h.store.records_eq]
  congr 1
  cases Flat.pick s.table.store.order s.table.store.records (.exact key) with
  | none => rfl
  | some r =>
    dsimp only
    rw [reader_eq h, h.judge_eq]
    cases s.table.judge s.reader r with
    | value b =>
      show landed _ _ _ = landed _ _ _
      rw [landed, landed, landing_eq h]
    | hidden => rfl
    | conflict => exact congrArg (fun e => (Except.error e, s.cursor.place)) (conflict_eq h r.key)

private theorem quarryAbove_eq (key : Bytes) : quarryAbove ⟨s.cursor, t⟩ key = s.quarryAbove key := by
  rw [quarryAbove, quarryAbove, reader_eq h, h.judge_eq, h.ahead_eq, nearOrigin, nearOrigin, leadOf,
    leadOf, h.format]

private theorem neared_eq : neared ⟨s.cursor, t⟩ = s.neared := by
  refine keyed_eq h .searchNear fun key => ?_
  rw [hunted_eq h, hunted_eq h, quarryAbove_eq h, quarryBelow_eq h, leadOf, leadOf, h.format]

end Alike

def walked (dir : Direction) : Nat → Scan → List (Except Error (Option Entry)) × Cursor
  | 0, s => ([], s.cursor)
  | n + 1, s =>
    match s.stepped dir with
    | (.ok (some e), p) =>
      let (rest, c) := walked dir n ⟨{ s.cursor with place := p }, s.table⟩
      (.ok (some e) :: rest, c)
    | (.ok none, p) => ([.ok none], { s.cursor with place := p })
    | (.error e, p) => ([.error e], { s.cursor with place := p })

private theorem walked_eq (h : s.table.Alike t) (dir : Direction) (n : Nat) :
    walked dir n ⟨s.cursor, t⟩ = walked dir n s := by
  induction n generalizing s with
  | zero => rfl
  | succ n ih =>
    rw [walked, walked, stepped_eq h]
    obtain ⟨(e | (_ | e)), p⟩ := s.stepped dir
    · rfl
    · rfl
    · dsimp only
      rw [ih (s := ⟨{ s.cursor with place := p }, s.table⟩) h]

private theorem walk_run (dir : Direction) (n : Nat) (hs : s.table.store.Valid)
    (hfit : s.cursor.options.releaseEvict = true → s.table.store.Fits) :
    ∃ t, s.table.Alike t ∧ t.store.Valid ∧
      walk dir n s = ((walked dir n s).1, ⟨(walked dir n s).2, t⟩) := by
  induction n generalizing s with
  | zero => exact ⟨s.table, .refl s.table, hs, rfl⟩
  | succ n ih =>
    obtain ⟨t, hst, ht, hrun⟩ :=
      (step_comes dir hs fun hrelease => (hfit hrelease).inMemory).run hfit
    rw [walk, walked, hrun]
    obtain ⟨(e | (_ | e)), p⟩ := s.stepped dir
    · exact ⟨t, hst, ht, rfl⟩
    · exact ⟨t, hst, ht, rfl⟩
    · obtain ⟨u, htu, hu, hrest⟩ := ih (s := ⟨{ s.cursor with place := p }, t⟩) ht
        fun hrelease => hst.store.fits (hfit hrelease)
      rw [walked_eq (s := ⟨{ s.cursor with place := p }, s.table⟩) hst] at hrest
      refine ⟨u, hst.trans htu, hu, ?_⟩
      show (.ok (some e) :: (walk dir n ⟨{ s.cursor with place := p }, t⟩).1,
        (walk dir n ⟨{ s.cursor with place := p }, t⟩).2) = _
      rw [hrest]

end Scan

def Reply.isFailed : Reply → Bool
  | failed _ => true
  | _ => false

namespace CursorCall

def told {α : Type} (c : Cursor) (reply : α → Reply) : Except Error α × Place → Reply × Cursor
  | (.ok a, p) => (reply a, { c with place := p })
  | (.error e, p) => (.failed e, { c with place := p })

def effect (s : Scan) : CursorCall → Reply × Cursor
  | setTxn txn => taken s.cursor (.ok (s.cursor.setTxn txn))
  | setKey key => taken s.cursor (outcome (Cursor.setKey s.table.format key) s.cursor)
  | get => (.holding (s.cursor.key s.table.format) s.cursor.value, s.cursor)
  | configureBound config =>
    taken s.cursor (outcome (Cursor.configureBound s.table.format config) s.cursor)
  | applyBound request =>
    taken s.cursor (outcome (Cursor.applyBound s.table.format request) s.cursor)
  | setBound side key inclusive =>
    taken s.cursor (outcome (Cursor.setBound s.table.format side key inclusive) s.cursor)
  | clearBound side => taken s.cursor (.ok (s.cursor.clearBound side))
  | reset => taken s.cursor (.ok s.cursor.reset)
  | next => told s.cursor .entry (s.stepped .forward)
  | prev => told s.cursor .entry (s.stepped .backward)
  | search => told s.cursor .entry s.searched
  | searchNear => told s.cursor .near s.neared
  | walk dir n => (.walked (Scan.walked dir n s).1, (Scan.walked dir n s).2)

variable {s : Scan} {t : Table}

theorem answer_run {α : Type} {reply : α → Reply} {call : ScanM α} {r : Except Error α × Place}
    (h : s.Comes call r) (hfit : s.cursor.options.releaseEvict = true → s.table.store.Fits) :
    ∃ t, s.table.Alike t ∧ t.store.Valid ∧
      answer reply call s = ((told s.cursor reply r).1, ⟨(told s.cursor reply r).2, t⟩) := by
  obtain ⟨t, hst, ht, hrun⟩ := h.run hfit
  refine ⟨t, hst, ht, ?_⟩
  rw [answer, hrun]
  obtain ⟨result, p⟩ := r
  cases result <;> rfl

/-- A call does what its effect says, as long as the pages that it gives up fit. -/
theorem run_eq_effect (call : CursorCall) (hs : s.table.store.Valid)
    (hfit : s.cursor.options.releaseEvict = true → s.table.store.Fits) :
    ∃ t, s.table.Alike t ∧ t.store.Valid ∧
      call.run s = ((call.effect s).1, ⟨(call.effect s).2, t⟩) := by
  have hm := fun hrelease => (hfit hrelease).inMemory
  have hchange : ∀ {edit : CursorM Unit}, Atomic edit → ∃ t, s.table.Alike t ∧ t.store.Valid ∧
      change s edit = ((taken s.cursor (outcome edit s.cursor)).1,
        ⟨(taken s.cursor (outcome edit s.cursor)).2, t⟩) :=
    fun hatomic => ⟨s.table, .refl s.table, hs, change_eq_taken hatomic s⟩
  cases call with
  | setTxn txn => exact hchange (.modify (·.setTxn txn))
  | setKey key => exact hchange (Cursor.atomic_setKey _ key)
  | get => exact ⟨s.table, .refl s.table, hs, rfl⟩
  | configureBound config => exact hchange (Cursor.atomic_configureBound _ config)
  | applyBound request => exact hchange (Cursor.atomic_applyBound _ request)
  | setBound side key inclusive => exact hchange (Cursor.atomic_setBound _ side key inclusive)
  | clearBound side => exact hchange (.modify (·.clearBound side))
  | reset => exact hchange (.modify Cursor.reset)
  | next => exact answer_run (Scan.step_comes .forward hs hm) hfit
  | prev => exact answer_run (Scan.step_comes .backward hs hm) hfit
  | search => exact answer_run (Scan.search_comes hs hm) hfit
  | searchNear => exact answer_run (Scan.searchNear_comes hs hm) hfit
  | walk dir n =>
    obtain ⟨t, hst, ht, hrun⟩ := Scan.walk_run dir n hs hfit
    refine ⟨t, hst, ht, ?_⟩
    show (Reply.walked (Scan.walk dir n s).1, (Scan.walk dir n s).2) = _
    rw [hrun]
    rfl

/-- Calls do not tell tables apart that agree in their records and transactions. -/
theorem effect_eq (call : CursorCall) (h : s.table.Alike t) :
    call.effect ⟨s.cursor, t⟩ = call.effect s := by
  cases call with
  | next => exact congrArg (told s.cursor .entry) (Scan.stepped_eq h .forward)
  | prev => exact congrArg (told s.cursor .entry) (Scan.stepped_eq h .backward)
  | search => exact congrArg (told s.cursor .entry) (Scan.searched_eq h)
  | searchNear => exact congrArg (told s.cursor .near) (Scan.neared_eq h)
  | walk dir n => exact congrArg (fun r => (Reply.walked r.1, r.2)) (Scan.walked_eq h dir n)
  | setTxn txn => rfl
  | clearBound side => rfl
  | reset => rfl
  | _ =>
    unfold effect
    rw [h.format]

end CursorCall

end Keyspan
