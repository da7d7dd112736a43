import Keyspan.Proofs.Cursor.Amend
import Keyspan.Proofs.Cursor.Clip

/-!
Steps that hold the bound ahead against visible records only.

Such a step hunts as if no bound lay ahead and asks of its find alone whether the bound admits it. It
comes to the same as a step, but for one case: where a bound stops a step although all that lies ahead
is hidden, it leaves the table.
-/

set_option autoImplicit false
set_option relaxedAutoImplicit false

namespace Keyspan

namespace Scan

/-- Like `advance`, but hidden records are passed over wherever they are. -/
def advanceVisible (dir : Direction) : ScanM (Option Entry) := do
  let m ← origin dir
  let s ← get
  match ← hunt dir s.reader (fun _ => true) s.huntLimit m with
  | .held h =>
    if dir.admits s.table.format s.cursor.bounds h.key then some <$> land h
    else do
      count fun n => { n with boundExits := n.boundExits + 1 }
      place (s.cursor.place.stop dir)
      pure none
  | _ => miss

/-- Like `step`, but the bound ahead is held against visible records only. -/
def stepVisible (dir : Direction) : ScanM (Option Entry) := do
  requireUnprepared dir.positioning
  if (← get).isExhausted dir then pure none else advanceVisible dir

variable {s : Scan} {dir : Direction}

def caughtVisible (s : Scan) (dir : Direction) : Catch → Except Error (Option Entry) × Place
  | .held h =>
    if dir.admits s.table.format s.cursor.bounds h.key then s.landed h some
    else (.ok none, s.cursor.place.stop dir)
  | _ => (.ok none, {})

def resultVisible (s : Scan) (dir : Direction) : Except Error (Option Entry) × Place :=
  s.outcome (s.caughtVisible dir) (s.sighting dir)

def steppedVisible (s : Scan) (dir : Direction) : Except Error (Option Entry) × Place :=
  if s.heldUp then (.error (.preparedTransaction dir.positioning), s.cursor.place)
  else if s.isExhausted dir then (.ok none, s.cursor.place)
  else s.resultVisible dir

private theorem advanceVisible_comes (dir : Direction) (hs : s.table.store.Valid)
    (hm : s.cursor.options.releaseEvict = true → s.table.store.InMemory) :
    s.Comes (advanceVisible dir) (s.resultVisible dir) := by
  refine hunting_comes dir (fun _ _ => true) (s.caughtVisible dir) hs (fun _ _ => rfl)
    fun u t found hsu hst ht => ?_
  cases found with
  | held h =>
    show Comes _ (if dir.admits u.format s.cursor.bounds h.key = true then _ else _) (if _ then _ else _)
    rw [hsu.format]
    split
    · exact landed_comes hst ht hm h some
    · exact .count ht _ fun v _ hv => .place hv _ _
  | barred x => exact .place ht _ _
  | nothing => exact .place ht _ _

theorem stepVisible_comes (dir : Direction) (hs : s.table.store.Valid)
    (hm : s.cursor.options.releaseEvict = true → s.table.store.InMemory) :
    s.Comes (stepVisible dir) (s.steppedVisible dir) :=
  attempt_comes dir hs (advanceVisible_comes dir hs hm)

section Alike

variable {t : Table} (h : s.table.Alike t)
include h

private theorem sighting_eq (dir : Direction) : sighting ⟨s.cursor, t⟩ dir = s.sighting dir := by
  rw [sighting, sighting, originSeek_eq h, reader_eq h, h.judge_eq, h.ahead_eq]

private theorem landed_eq {α : Type} (x : Held) (reply : Entry → α) :
    landed ⟨s.cursor, t⟩ x reply = s.landed x reply := by
  rw [landed, landed, landing_eq h]

private theorem resultVisible_eq (dir : Direction) :
    resultVisible ⟨s.cursor, t⟩ dir = s.resultVisible dir := by
  rw [resultVisible, resultVisible, sighting_eq h]
  rcases s.sighting dir with r | (x | r | _)
  · exact congrArg (fun e => (Except.error e, s.cursor.place)) (conflict_eq h r.key)
  · simp only [outcome, caughtVisible]
    rw [h.format, landed_eq h]
  · rfl
  · rfl

theorem steppedVisible_eq (dir : Direction) :
    steppedVisible ⟨s.cursor, t⟩ dir = s.steppedVisible dir := by
  rw [steppedVisible, steppedVisible, heldUp_eq h, resultVisible_eq h]
  rfl

end Alike

/-- All that lies ahead of a step is hidden. -/
def blind (s : Scan) (dir : Direction) : Bool :=
  (s.table.ahead dir (s.originSeek dir)).all fun r => s.table.judge s.reader r = .hidden

theorem sighting_cases (hsettled : s.table.Uncontested s.reader) (dir : Direction) :
    (s.blind dir = true ∧ s.sighting dir = .ok .nothing) ∨
      (s.blind dir = false ∧ ∃ h, s.sighting dir = .ok (.held h)) := by
  have hmem : ∀ r ∈ s.table.ahead dir (s.originSeek dir), r ∈ s.table.store.records :=
    fun r hr => (Flat.mem_ahead.1 hr).1
  rcases Flat.hunt_cases (s.table.judge s.reader) (fun _ => true)
    (s.table.ahead dir (s.originSeek dir)) with
    ⟨hhunt, hhidden⟩ | ⟨front, r, back, hsplit, -,
      ⟨b, hhunt, hvalue, -⟩ | ⟨-, hconflict⟩ | ⟨-, hbar⟩⟩
  · refine Or.inl ⟨?_, hhunt⟩
    rw [blind, List.all_eq_true]
    exact fun r hr => decide_eq_true (hhidden r hr)
  · refine Or.inr ⟨?_, _, hhunt⟩
    rw [blind, List.all_eq_false]
    refine ⟨r, ?_, ?_⟩
    · rw [hsplit]
      exact List.mem_append_right front List.mem_cons_self
    · rw [hvalue]
      exact nofun
  · have hr : r ∈ s.table.ahead dir (s.originSeek dir) := by
      rw [hsplit]
      exact List.mem_append_right front List.mem_cons_self
    exact absurd hconflict (hsettled.judge_ne_conflict (hmem r hr))
  · cases hbar

theorem resultVisible_of_nothing (h : s.sighting dir = .ok .nothing) :
    s.resultVisible dir = (.ok none, {}) := by
  rw [resultVisible, h]
  rfl

def placed (s : Scan) (q : Place) : Scan :=
  { s with cursor.place := q }

@[simp] theorem placed_table (s : Scan) (q : Place) : (s.placed q).table = s.table := rfl

@[simp] theorem placed_place (s : Scan) (q : Place) : (s.placed q).cursor.place = q := rfl

@[simp] theorem placed_bounds (s : Scan) (q : Place) :
    (s.placed q).cursor.bounds = s.cursor.bounds := rfl

@[simp] theorem placed_staged (s : Scan) (q : Place) :
    (s.placed q).cursor.staged = s.cursor.staged := rfl

@[simp] theorem placed_reader (s : Scan) (q : Place) : (s.placed q).reader = s.reader := rfl

@[simp] theorem placed_heldUp (s : Scan) (q : Place) : (s.placed q).heldUp = s.heldUp := rfl

@[simp] theorem placed_conflict (s : Scan) (q : Place) (key : Bytes) :
    (s.placed q).conflict key = s.conflict key := rfl

/-- Outcomes of one call from the places `p` and `q`: it fails and stays, or it ends in the same way in
the same place, and no bound has stopped it there. -/
inductive Together {α : Type} (p q : Place) :
    Except Error α × Place → Except Error α × Place → Prop
  | failed (e : Error) : Together p q (.error e, p) (.error e, q)
  | ended (a : α) (r : Place) (hr : r.isStopped = false) :
      Together p q (.ok a, r) (.ok a, r)

section Together

variable {α : Type} (s : Scan) (q : Place)

private theorem landed_together (h : Held) (reply : Entry → α) :
    Together s.cursor.place q (s.landed h reply) ((s.placed q).landed h reply) := by
  simp only [landed, landing, placed_table, placed_place]
  cases s.table.format.unpackKey h.key with
  | ok key => exact .ended (reply ⟨key, h.value⟩) (.on h) rfl
  | error e => exact .failed e

private theorem missed_together (a : α) : Together s.cursor.place q (.ok a, {}) (.ok a, {}) :=
  .ended a {} rfl

private theorem keyed_together (call : Positioning) {r r' : Bytes → Except Error α × Place}
    (h : ∀ key, Together s.cursor.place q (r key) (r' key)) :
    Together s.cursor.place q (s.keyed call r) ((s.placed q).keyed call r') := by
  rw [keyed, keyed, placed_heldUp, placed_staged]
  by_cases hheld : s.heldUp = true
  · rw [if_pos hheld, if_pos hheld]
    exact .failed _
  · rw [if_neg hheld, if_neg hheld]
    cases s.cursor.staged with
    | none => exact .failed _
    | some key => exact h key

private theorem hunted_together (quarry : Except Record Catch) (reply : Held → Entry → α)
    {m m' : Except Error α × Place} (h : Together s.cursor.place q m m') :
    Together s.cursor.place q (s.hunted quarry reply m) ((s.placed q).hunted quarry reply m') := by
  simp only [hunted, placed_place, placed_conflict]
  rcases quarry with r | (x | r | _)
  · exact .failed _
  · exact s.landed_together q x (reply x)
  · exact h
  · exact h

theorem searched_together : Together s.cursor.place q s.searched (s.placed q).searched := by
  refine s.keyed_together q .search fun key => ?_
  rw [placed_table, placed_bounds, placed_reader]
  by_cases hin : s.cursor.bounds.admits s.table.format key = true
  · rw [if_pos hin, if_pos hin]
    cases Flat.pick s.table.store.order s.table.store.records (.exact key) with
    | none => exact s.missed_together q none
    | some r =>
      dsimp only
      cases s.table.judge s.reader r with
      | value b => exact s.landed_together q _ _
      | hidden => exact s.missed_together q none
      | conflict => exact .failed _
  · rw [if_neg hin, if_neg hin]
    exact s.missed_together q none

theorem neared_together : Together s.cursor.place q s.neared (s.placed q).neared := by
  refine s.keyed_together q .searchNear fun key => s.hunted_together q _ _ ?_
  have hlead : (s.placed q).leadOf key = s.leadOf key := rfl
  rw [hlead]
  cases (s.leadOf key).isSome with
  | true => exact s.missed_together q none
  | false => exact s.hunted_together q _ _ (s.missed_together q none)

end Together

theorem not_admits_of_sighting (hs : s.table.store.Valid)
    (hordered : s.table.store.order = .typed s.table.format) {r : Record}
    (hq : s.quarry dir = .ok (.barred r)) {h : Held} (hsight : s.sighting dir = .ok (.held h)) :
    dir.admits s.table.format s.cursor.bounds h.key = false := by
  refine Flat.not_onward_of_barred (List.Pairwise.imp ?_ (meets_ahead hs hordered dir _)) hq hsight
  exact fun hxy => Direction.not_admits_of_meets hxy

/-- From places where a walk starts at the same record, both kinds of steps come to the same, unless a
bound stops the one. The other is stopped too then, or leaves the table if all that lies ahead is
hidden. -/
theorem result_together_or_stopped (hs : s.table.store.Valid)
    (hordered : s.table.store.order = .typed s.table.format)
    (hsettled : s.table.Uncontested s.reader) {q : Place}
    (horigin : (s.placed q).originSeek dir = s.originSeek dir) :
    Together s.cursor.place q (s.result dir) ((s.placed q).resultVisible dir) ∨
      (s.result dir = (.ok none, s.cursor.place.stop dir) ∧ (s.placed q).resultVisible dir =
        (.ok none, if s.blind dir = true then {} else q.stop dir)) := by
  have hsight : (s.placed q).sighting dir = s.sighting dir := by
    rw [sighting, sighting, horigin]
    rfl
  have hor := Flat.hunt_barred_or (s.table.judge s.reader)
    (dir.admits s.table.format s.cursor.bounds) (s.table.ahead dir (s.originSeek dir))
  rcases s.sighting_cases hsettled dir with ⟨hblind, hfound⟩ | ⟨hblind, h, hfound⟩
  · have hvisible := resultVisible_of_nothing (hsight.trans hfound)
    rcases hor with ⟨r, hq⟩ | hq
    · refine Or.inr ⟨?_, ?_⟩
      · rw [result, quarry, hq]
      · rw [hvisible, if_pos hblind]
    · refine Or.inl ?_
      have hq' : s.quarry dir = .ok .nothing := hq.trans hfound
      rw [hvisible, result, hq']
      exact s.missed_together q none
  · rcases hor with ⟨r, hq⟩ | hq
    · have hout := not_admits_of_sighting hs hordered hq hfound
      refine Or.inr ⟨?_, ?_⟩
      · rw [result, quarry, hq]
      · rw [resultVisible, hsight, hfound, hblind]
        exact if_neg (by rw [placed_table, placed_bounds, hout]; exact Bool.false_ne_true)
    · have hq' : s.quarry dir = .ok (.held h) := hq.trans hfound
      have hin : dir.admits s.table.format s.cursor.bounds h.key = true := Flat.onward_of_held hq'
      refine Or.inl ?_
      rw [result_of_held hq', resultVisible, hsight, hfound]
      rw [outcome, caughtVisible, placed_table, placed_bounds, if_pos hin]
      exact s.landed_together q h some

end Scan

end Keyspan
