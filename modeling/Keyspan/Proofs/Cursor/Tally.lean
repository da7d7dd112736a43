import Keyspan.Proofs.Cursor.Deciding
import Keyspan.Proofs.Cursor.Twins

/-!
What a step reads, and what it counts.

A step reads the hidden records that it steps over and the record at which it ends, and nothing else. It
ends at the first record, among those that it may start with, that the bound ahead does not admit or that
is not hidden.
-/

set_option autoImplicit false
set_option relaxedAutoImplicit false

namespace Keyspan

/-- The cursor walks from a bound: there is one behind, and the cursor is on no key within it. -/
def Cursor.startsAtBound (c : Cursor) (dir : Direction) (f : Format) : Bool :=
  (dir.start c.bounds).isSome &&
    match c.position with
    | .positioned anchor => !dir.reaches f c.bounds anchor.key
    | _ => true

def Reply.isCaught : Reply → Bool
  | entry (some _) => true
  | failed (.preparedConflict _) => true
  | _ => false

namespace Scan

variable {s : Scan} {dir : Direction}

/-- The bound ahead admits the record. -/
def onward (s : Scan) (dir : Direction) (r : Record) : Bool :=
  dir.admits s.table.format s.cursor.bounds r.key

/-- The record is hidden from the reader. -/
def hides (s : Scan) (r : Record) : Bool :=
  s.table.judge s.reader r = .hidden

/-- A step goes over the record. -/
def passes (s : Scan) (dir : Direction) (r : Record) : Bool :=
  s.onward dir r && s.hides r

def passed (s : Scan) (dir : Direction) : List Record :=
  Flat.passed (s.table.judge s.reader) (dir.admits s.table.format s.cursor.bounds)
    (s.table.ahead dir (s.originSeek dir))

def handed (s : Scan) (dir : Direction) : List Record :=
  Flat.handed (s.table.judge s.reader) (dir.admits s.table.format s.cursor.bounds)
    (s.table.ahead dir (s.originSeek dir))

/-- How often the bound ahead stops a step that comes to this. -/
def barrings : Except Record Catch → Nat
  | .ok (.barred _) => 1
  | _ => 0

/-- The seeks that a step makes, unless it is refused or the cursor is stopped, and what they hand
out. -/
inductive Makes (dir : Direction) (s : Scan) (made : List (Seek × Option Record)) : Prop
  | mk {m : Seek} {u : Scan} {r : EStateM.Result Error Scan Catch}
    (start : (origin dir).run s = .ok m u)
    (rounds : Rounds dir u.reader (dir.admits u.table.format u.cursor.bounds) m u made r)
    (within : made.length ≤ u.huntLimit)

private theorem passes_of_mem_passed {r : Record} (h : r ∈ s.passed dir) : s.passes dir r = true :=
  List.all_eq_true.1 List.all_takeWhile r h

theorem and_of_mem_passed {r : Record} (h : r ∈ s.passed dir) :
    s.onward dir r = true ∧ s.hides r = true :=
  (Bool.and_eq_true _ _).mp (passes_of_mem_passed h)

theorem end_cases (s : Scan) (dir : Direction) :
    (s.quarry dir = .ok .nothing ∧ s.passed dir = s.table.ahead dir (s.originSeek dir) ∧
      s.handed dir = s.passed dir) ∨
    ∃ r back, s.table.ahead dir (s.originSeek dir) = s.passed dir ++ r :: back ∧
      s.passes dir r = false ∧ s.handed dir = s.passed dir ++ [r] ∧
      ((∃ b, s.quarry dir = .ok (.held ⟨r.key, b⟩) ∧ s.onward dir r = true ∧
          s.table.judge s.reader r = .value b) ∨
        (s.quarry dir = .error r ∧ s.onward dir r = true ∧ s.table.judge s.reader r = .conflict) ∨
        (s.quarry dir = .ok (.barred r) ∧ s.onward dir r = false)) := by
  rcases Flat.hunt_split (s.table.judge s.reader) (dir.admits s.table.format s.cursor.bounds)
    (s.table.ahead dir (s.originSeek dir)) with ⟨hnothing, hall⟩ | ⟨r, back, hsplit, hend⟩
  · exact Or.inl ⟨hnothing, hall, (Flat.handed_of_all hall).trans hall.symm⟩
  · refine Or.inr ⟨r, back, hsplit, ?_, Flat.handed_of_split hsplit, hend⟩
    rcases hend with ⟨b, -, -, hj⟩ | ⟨-, -, hj⟩ | ⟨-, hno⟩
    · simp [passes, hides, hj]
    · simp [passes, hides, hj]
    · simp [passes, onward, hno]

def seeding (s : Scan) (dir : Direction) (n : Nat) : Scan :=
  ⟨s.cursor, { s.table with scans := s.table.scans.add dir 0 n 0 }⟩

private theorem seeding_zero (s : Scan) (dir : Direction) : s.seeding dir 0 = s := by
  rw [seeding, ScanStats.add_zero]

private theorem seeding_one (s : Scan) (dir : Direction) : s.seeding dir 1 =
    ⟨s.cursor, { s.table with
      scans := { s.table.scans with boundSeeks := s.table.scans.boundSeeks + 1 } }⟩ := by
  cases dir <;> rfl

theorem origin_counted (s : Scan) (dir : Direction) : (origin dir).run s =
    .ok (s.originSeek dir) (s.seeding dir (s.cursor.startsAtBound dir s.table.format).toNat) := by
  have hseed : (seed dir).run s =
      .ok (seedSeek dir s.cursor.bounds) (s.seeding dir (dir.start s.cursor.bounds).isSome.toNat) := by
    simp only [seed, EStateM.run_bind, EStateM.run_get, seedSeek]
    cases dir.start s.cursor.bounds with
    | none =>
      show _ = EStateM.Result.ok _ (s.seeding dir 0)
      rw [seeding_zero]
      rfl
    | some bound =>
      show _ = EStateM.Result.ok _ (s.seeding dir 1)
      rw [seeding_one]
      rfl
  simp only [origin, EStateM.run_bind, EStateM.run_get, originSeek, Cursor.startsAtBound]
  cases s.cursor.position with
  | positioned anchor =>
    dsimp only
    cases dir.reaches s.table.format s.cursor.bounds anchor.key with
    | true =>
      rw [if_pos rfl, if_pos rfl, Bool.not_true, Bool.and_false, Bool.toNat_false, seeding_zero]
      rfl
    | false =>
      rw [if_neg Bool.false_ne_true, if_neg Bool.false_ne_true, Bool.not_false, Bool.and_true]
      exact hseed
  | unpositioned =>
    rw [Bool.and_true]
    exact hseed
  | exhausted d last =>
    rw [Bool.and_true]
    exact hseed

theorem hunt_counted (dir : Direction) (hs : s.table.store.Valid) :
    ∃ u t made, (origin dir).run s = .ok (s.originSeek dir) u ∧ u.cursor = s.cursor ∧
      (hunt dir u.reader (dir.admits u.table.format u.cursor.bounds) u.huntLimit
        (s.originSeek dir)).run u = s.huntEnd t (s.quarry dir) ∧
      s.table.Alike t ∧ t.store.Valid ∧ s.Makes dir made ∧
      made.filterMap Prod.snd = s.handed dir ∧
      t.store.visited = s.table.store.visited + (s.handed dir).length ∧
      t.scans = s.table.scans.add dir (s.passed dir).length
        (s.cursor.startsAtBound dir s.table.format).toNat 0 := by
  have horigin := origin_counted s dir
  generalize hk : (s.cursor.startsAtBound dir s.table.format).toNat = k at horigin
  let u : Scan := s.seeding dir k
  have hsu : s.table.Alike u.table := ⟨rfl, rfl, .refl s.table.store⟩
  obtain ⟨t, made, hut, ht, hrounds, hseeks, hhanded, hvisited, hscans⟩ :=
    exists_rounds (s := u) dir s.reader (dir.admits s.table.format s.cursor.bounds) hs
      (along_originSeek s dir) rfl
  have hwithin : made.length ≤ u.huntLimit := by
    have hpassed : (s.passed dir).length ≤ (s.table.ahead dir (s.originSeek dir)).length :=
      (Flat.passed_prefix _ _ _).length_le
    have hlimit : (s.table.ahead dir (s.originSeek dir)).length < u.huntLimit :=
      length_ahead_lt (s := u) hs dir (s.originSeek dir)
    have hmade : made.length = (s.passed dir).length + 1 := length_of_seeks hseeks
    omega
  have hend : u.huntEnd t (s.quarry dir) = s.huntEnd t (s.quarry dir) := rfl
  refine ⟨u, t, made, horigin, rfl, (hrounds.hunt_eq hwithin).trans hend, hsu.trans hut, ht,
    .mk horigin hrounds hwithin, hhanded, hvisited, ?_⟩
  have hboth := s.table.scans.add_add dir 0 k 0 (s.passed dir).length 0 0
  rw [Nat.zero_add] at hboth
  exact hscans.trans hboth

private theorem table_ends {α : Type} (s : Scan) (t : Table) (r : Except Error α × Place) :
    (finalState (s.ends t r)).table = t := by
  obtain ⟨result, p⟩ := r
  cases result <;> rfl

/-- What a call for a step comes to, with the seeks that it makes and what it counts. -/
structure Counted (s : Scan) (dir : Direction) (call : ScanM (Option Entry)) (t : Table)
    (made : List (Seek × Option Record)) : Prop where
  alike : s.table.Alike t
  valid : t.store.Valid
  run : call.run s = s.ends t (s.result dir)
  makes : s.Makes dir made
  handed : made.filterMap Prod.snd = s.handed dir
  visited : t.store.visited = s.table.store.visited + (s.handed dir).length
  scans : t.scans = s.table.scans.add dir (s.passed dir).length
    (s.cursor.startsAtBound dir s.table.format).toNat (barrings (s.quarry dir))

/-- What a step does with what its hunt has caught. -/
def conclude (s : Scan) (dir : Direction) : Catch → ScanM (Option Entry)
  | .held h => some <$> land h
  | .barred _ => do
    count fun n => { n with boundExits := n.boundExits + 1 }
    place (s.cursor.place.stop dir)
    pure none
  | .nothing => do
    place {}
    pure none

private theorem advance_counted (dir : Direction) (hs : s.table.store.Valid)
    (hfit : s.cursor.options.releaseEvict = true → s.table.store.Fits) :
    ∃ t made, s.Counted dir (advance dir) t made := by
  obtain ⟨u, t, made, horigin, hcursor, hhunt, hst, ht, hmakes, hhanded, hvisited, hscans⟩ :=
    hunt_counted dir hs
  rw [hcursor] at hhunt
  have hfailed : ∀ e v, s.huntEnd t (s.quarry dir) = .error e v →
      (advance dir).run s = .error e v := by
    intro e v h
    simp only [advance, EStateM.run_bind, horigin, EStateM.run_get, hcursor, hhunt, h]
  have hcaught : ∀ found v, s.huntEnd t (s.quarry dir) = .ok found v →
      (advance dir).run s = (s.conclude dir found).run v := by
    intro found v h
    simp only [advance, EStateM.run_bind, horigin, EStateM.run_get, hcursor, hhunt, h]
    cases found <;> rfl
  have hresult := result_eq_outcome s dir
  rcases hquarry : s.quarry dir with x | (h | x | _)
  · rw [hquarry] at hresult
    refine ⟨t, made, hst, ht, ?_, hmakes, hhanded, hvisited, ?_⟩
    · rw [hfailed _ _ (by rw [hquarry]; rfl), hresult]
      rfl
    · rw [hquarry]
      exact hscans
  · -- landing may move pages, and counts nothing
    rw [hquarry] at hresult
    have hland : Comes ⟨s.cursor, t⟩ (some <$> land h) (s.landed h some) :=
      landed_comes hst ht (fun hrelease => (hfit hrelease).inMemory) h some
    obtain ⟨v, htv, hv, hlanded⟩ := hland.run fun hrelease => hst.store.fits (hfit hrelease)
    have htallies : v.tallies = t.tallies := by
      have hkeeps : Keeps (fun s : Scan => s.table.tallies) (some <$> land h) := by
        rw [← bind_pure_comp]
        exact (keeps_land h).bind fun e => .pure (some e)
      have hfinal := hkeeps ⟨s.cursor, t⟩
      rw [hlanded] at hfinal
      exact (congrArg Table.tallies (table_ends ⟨s.cursor, t⟩ v _)).symm.trans hfinal
    obtain ⟨hscans', hrest⟩ := Prod.ext_iff.1 htallies
    obtain ⟨-, hvisited'⟩ := Prod.ext_iff.1 hrest
    refine ⟨v, made, hst.trans htv, hv, ?_, hmakes, hhanded, hvisited'.trans hvisited, ?_⟩
    · rw [hcaught (.held h) _ (by rw [hquarry]; rfl), hresult]
      exact hlanded
    · rw [hquarry]
      exact hscans'.trans hscans
  · rw [hquarry] at hresult
    let n : ScanStats := { t.scans with boundExits := t.scans.boundExits + 1 }
    refine ⟨{ t with scans := n }, made, ⟨hst.format, hst.ledger, hst.store⟩, ht, ?_, hmakes,
      hhanded, hvisited, ?_⟩
    · rw [hcaught (.barred x) _ (by rw [hquarry]; rfl), hresult]
      rfl
    · have hone : n = t.scans.add dir 0 0 1 := by
        cases dir <;> rfl
      show n = _
      rw [hone, hscans, ScanStats.add_add, hquarry]
      rfl
  · rw [hquarry] at hresult
    refine ⟨t, made, hst, ht, ?_, hmakes, hhanded, hvisited, ?_⟩
    · rw [hcaught .nothing _ (by rw [hquarry]; rfl), hresult]
      rfl
    · rw [hquarry]
      exact hscans

theorem step_counted (dir : Direction) (hs : s.table.store.Valid)
    (hfit : s.cursor.options.releaseEvict = true → s.table.store.Fits)
    (hprepared : ∀ txn, s.cursor.txn = some txn → s.table.ledger.state txn ≠ .prepared)
    (hopen : s.isExhausted dir = false) : ∃ t made, s.Counted dir (step dir) t made := by
  obtain ⟨t, made, h⟩ := advance_counted dir hs hfit
  have hadvance := step_run_open (heldUp_eq_false hprepared) hopen
  exact ⟨t, made, { h with run := hadvance.trans h.run }⟩

/-- The record at which a step ends: the first that it may start with and may not step over. -/
def finish? (s : Scan) (dir : Direction) : Option Record :=
  ((dir.arrange s.table.store.records).filter fun r =>
    s.cursor.startsWith dir s.table.format r.key).find? fun r => !s.passes dir r

/-- The hidden records between the place where a step starts and the one where it ends. -/
def between (s : Scan) (dir : Direction) : List Record :=
  (dir.arrange s.table.store.records).filter fun r =>
    s.cursor.startsWith dir s.table.format r.key && s.hides r &&
      (s.finish? dir).all fun e => dir.Meets (.typed s.table.format) r.key e.key

/-- How a step ends at this record: its reply, and where it leaves the cursor. -/
inductive EndsAt (s : Scan) (dir : Direction) : Option Record → Reply → Place → Prop
  | nothing : EndsAt s dir none (.entry none) {}
  | barred {r : Record} (past : s.onward dir r = false) :
    EndsAt s dir (some r) (.entry none) (s.cursor.place.stop dir)
  | found {r : Record} {b : Bytes} {key : Key} (onward : s.onward dir r = true)
    (value : s.table.judge s.reader r = .value b) (unpacks : s.table.format.unpackKey r.key = .ok key) :
    EndsAt s dir (some r) (.entry (some ⟨key, b⟩)) (.on ⟨r.key, b⟩)
  | refused {r : Record} (onward : s.onward dir r = true)
    (conflict : s.table.judge s.reader r = .conflict) :
    EndsAt s dir (some r) (.failed (s.conflict r.key)) s.cursor.place

section Stored

variable (hs : s.table.store.Valid) (hordered : s.table.store.order = .typed s.table.format)
include hordered

private theorem ahead_originSeek (dir : Direction) : s.table.ahead dir (s.originSeek dir) =
    (dir.arrange s.table.store.records).filter fun r =>
      s.cursor.startsWith dir s.table.format r.key := by
  rw [Table.ahead, Flat.ahead, hordered]
  congr 1
  funext r
  exact accepts_originSeek s dir r

private theorem finish?_of_split {dir : Direction} {r : Record} {back : List Record}
    (hsplit : s.table.ahead dir (s.originSeek dir) = s.passed dir ++ r :: back)
    (hr : s.passes dir r = false) : s.finish? dir = some r := by
  have hpassed : ∀ x ∈ s.passed dir, ¬ (!s.passes dir x) = true := by
    intro x hx
    rw [passes_of_mem_passed hx]
    decide
  rw [finish?, ← ahead_originSeek hordered, hsplit, List.find?_append,
    List.find?_eq_none.2 hpassed, Option.none_or, List.find?_cons_of_pos (by rw [hr]; rfl)]

private theorem finish?_of_all {dir : Direction}
    (hall : s.passed dir = s.table.ahead dir (s.originSeek dir)) : s.finish? dir = none := by
  rw [finish?, ← ahead_originSeek hordered, ← hall, List.find?_eq_none]
  intro x hx
  rw [passes_of_mem_passed hx]
  decide

include hs in
/-- The records that a step goes over are the hidden ones between its start and its end. -/
theorem passed_eq_between (dir : Direction) : s.passed dir = s.between dir := by
  have hhides : ∀ x ∈ s.passed dir, s.hides x = true := fun x hx => (and_of_mem_passed hx).2
  have hbetween : s.between dir = (s.table.ahead dir (s.originSeek dir)).filter fun r =>
      s.hides r && (s.finish? dir).all fun e => dir.Meets (.typed s.table.format) r.key e.key := by
    rw [ahead_originSeek hordered, List.filter_filter, between]
    simp only [Bool.and_assoc, Bool.and_comm]
  rw [hbetween]
  rcases end_cases s dir with ⟨-, hall, -⟩ | ⟨r, back, hsplit, hr, -⟩
  · rw [finish?_of_all hordered hall, ← hall, List.filter_eq_self.2]
    intro x hx
    rw [hhides x hx]
    rfl
  · have hmeets := meets_ahead hs hordered dir (s.originSeek dir)
    rw [hsplit] at hmeets
    obtain ⟨-, hback, hcross⟩ := List.pairwise_append.1 hmeets
    have hfront : ∀ x ∈ s.passed dir, (s.hides x &&
        decide (dir.Meets (.typed s.table.format) x.key r.key)) = true := by
      intro x hx
      rw [hhides x hx, decide_eq_true (hcross x hx r List.mem_cons_self)]
      rfl
    -- a walk meets neither the record where it ends nor a later one before that record
    have hrest : ∀ x ∈ r :: back, ¬ (s.hides x &&
        decide (dir.Meets (.typed s.table.format) x.key r.key)) = true := by
      intro x hx hand
      have hbefore := of_decide_eq_true (Bool.and_eq_true_iff.1 hand).2
      rcases List.mem_cons.1 hx with rfl | hx
      · exact Direction.not_meets_self _ hbefore
      · have hafter := (List.pairwise_cons.1 hback).1 x hx
        exact Direction.not_meets_self _ (Direction.meets_trans hafter hbefore)
    rw [finish?_of_split hordered hsplit hr, hsplit]
    simp only [Option.all_some]
    rw [List.filter_append, List.filter_eq_self.2 hfront, List.filter_eq_nil_iff.2 hrest,
      List.append_nil]

/-- How a step ends, and how many records it reads and how many bounds stop it on the way. -/
theorem endsAt_finish (dir : Direction)
    (hunpacks : ∀ r ∈ s.table.store.records, ∃ key, s.table.format.unpackKey r.key = .ok key)
    (hopen : s.isExhausted dir = false) :
    ∃ reply p, CursorCall.told s.cursor .entry (s.result dir) = (reply, { s.cursor with place := p }) ∧
      s.EndsAt dir (s.finish? dir) reply p ∧
      barrings (s.quarry dir) = (isExhausted dir ⟨{ s.cursor with place := p }, s.table⟩).toNat ∧
      (s.handed dir).length = (s.passed dir).length + barrings (s.quarry dir) + reply.isCaught.toNat := by
  rcases end_cases s dir with ⟨hquarry, hall, hread⟩ | ⟨r, back, hsplit, hr, hread, hend⟩
  · have hresult : s.result dir = (.ok none, {}) := by
      rw [result, hquarry]
    rw [finish?_of_all hordered hall, hresult, hquarry, hread]
    exact ⟨_, _, rfl, .nothing, rfl, rfl⟩
  · rw [finish?_of_split hordered hsplit hr, hread, List.length_append]
    have hmem : r ∈ s.table.ahead dir (s.originSeek dir) := by
      rw [hsplit]
      exact List.mem_append_right _ List.mem_cons_self
    rcases hend with ⟨b, hquarry, hgo, hj⟩ | ⟨hquarry, hgo, hj⟩ | ⟨hquarry, hgo⟩
    · obtain ⟨key, hkey⟩ := hunpacks r (Flat.mem_ahead.1 hmem).1
      have hresult : s.result dir = (.ok (some ⟨key, b⟩), .on ⟨r.key, b⟩) := by
        rw [result, hquarry]
        simp only [hkey]
      rw [hresult, hquarry]
      exact ⟨_, _, rfl, .found hgo hj hkey, rfl, rfl⟩
    · have hresult : s.result dir = (.error (s.conflict r.key), s.cursor.place) := by
        rw [result, hquarry]
      have hstays : isExhausted dir ⟨{ s.cursor with place := s.cursor.place }, s.table⟩ = false :=
        hopen
      rw [hresult, hquarry]
      refine ⟨_, _, rfl, .refused hgo hj, ?_, rfl⟩
      rw [hstays]
      rfl
    · have hresult : s.result dir = (.ok none, s.cursor.place.stop dir) := by
        rw [result, hquarry]
      rw [hresult, hquarry]
      refine ⟨_, _, rfl, .barred hgo, ?_, rfl⟩
      have hstops : isExhausted dir ⟨{ s.cursor with place := s.cursor.place.stop dir }, s.table⟩ =
          true := isExhausted_iff.2 ⟨_, rfl⟩
      rw [hstops]
      rfl

end Stored

end Scan

end Keyspan
