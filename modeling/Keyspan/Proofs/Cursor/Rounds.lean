import Keyspan.Proofs.Cursor.Quiet
import Keyspan.Proofs.Cursor.Stream
import Keyspan.Proofs.Store.Twins

/-!
A hunt, seek by seek.

Each round of a hunt makes one seek, and ends the hunt or names the seek of the next round. Rounds follow
each other without any limit to their number; that they end all the same is because each seek goes on
past the record that the one before handed out. So there are no more rounds than records ahead and one,
which is fewer than a hunt is allowed, and the rounds that there were are the hunt.
-/

set_option autoImplicit false
set_option relaxedAutoImplicit false

namespace Keyspan

namespace Table

def ahead (t : Table) (dir : Direction) (m : Seek) : List Record :=
  Flat.ahead t.store.order dir m t.store.records

/-- What a reader makes of a record. -/
def judge (t : Table) (reader : Transaction) (r : Record) : Outcome :=
  t.ledger.resolve reader r.versions

variable {t u : Table}

theorem Alike.ahead_eq (h : t.Alike u) (dir : Direction) (m : Seek) :
    u.ahead dir m = t.ahead dir m := by
  rw [ahead, ahead, h.store.order, h.store.records_eq]

theorem Alike.judge_eq (h : t.Alike u) (reader : Transaction) : u.judge reader = t.judge reader := by
  funext r
  rw [judge, judge, h.ledger]

end Table

namespace Flat

variable {judge : Record → Outcome} {onward : Bytes → Bool} {l : List Record}

def passed (judge : Record → Outcome) (onward : Bytes → Bool) (l : List Record) : List Record :=
  l.takeWhile fun r => onward r.key && judge r = .hidden

/-- The records that the seeks of a hunt hand out: those it steps over, and the one it ends at. -/
def handed (judge : Record → Outcome) (onward : Bytes → Bool) (l : List Record) : List Record :=
  l.take ((passed judge onward l).length + 1)

private theorem passed_cons_hidden {r : Record} (hgo : onward r.key = true) (hj : judge r = .hidden) :
    passed judge onward (r :: l) = r :: passed judge onward l := by
  rw [passed, List.takeWhile_cons_of_pos (by simp [hgo, hj]), passed]

private theorem passed_cons_of_not {r : Record} (h : ¬ (onward r.key = true ∧ judge r = .hidden)) :
    passed judge onward (r :: l) = [] := by
  rw [passed, List.takeWhile_cons_of_neg (by simpa using h)]

theorem passed_prefix (judge : Record → Outcome) (onward : Bytes → Bool) (l : List Record) :
    passed judge onward l <+: l :=
  List.takeWhile_prefix _

theorem handed_of_split {r : Record} {back : List Record}
    (hsplit : l = passed judge onward l ++ r :: back) :
    handed judge onward l = passed judge onward l ++ [r] := by
  have htake : ∀ p : List Record, (p ++ r :: back).take (p.length + 1) = p ++ [r] := by
    intro p
    rw [List.take_length_add_append, List.take_succ_cons, List.take_zero]
  rw [handed]
  conv => lhs; arg 2; rw [hsplit]
  exact htake _

theorem handed_of_all (hall : passed judge onward l = l) : handed judge onward l = l := by
  rw [handed, hall, List.take_of_length_le (Nat.le_succ _)]

theorem hunt_split (judge : Record → Outcome) (onward : Bytes → Bool) (l : List Record) :
    (hunt judge onward l = .ok .nothing ∧ passed judge onward l = l) ∨
      ∃ r back, l = passed judge onward l ++ r :: back ∧
        ((∃ b, hunt judge onward l = .ok (.held ⟨r.key, b⟩) ∧ onward r.key = true ∧
            judge r = .value b) ∨
          (hunt judge onward l = .error r ∧ onward r.key = true ∧ judge r = .conflict) ∨
          (hunt judge onward l = .ok (.barred r) ∧ onward r.key = false)) := by
  induction l with
  | nil => exact Or.inl ⟨rfl, rfl⟩
  | cons r rest ih =>
    cases hgo : onward r.key with
    | false =>
      have hpassed := @passed_cons_of_not judge onward rest r fun h => by simp [hgo] at h
      refine Or.inr ⟨r, rest, by rw [hpassed, List.nil_append], Or.inr (Or.inr ⟨?_, hgo⟩)⟩
      rw [hunt, if_neg (by simp [hgo])]
    | true =>
      cases hj : judge r with
      | value b =>
        have hpassed := @passed_cons_of_not judge onward rest r fun h => by simp [hj] at h
        refine Or.inr ⟨r, rest, by rw [hpassed, List.nil_append], Or.inl ⟨b, ?_, hgo, hj⟩⟩
        rw [hunt, if_pos hgo, hj]
      | conflict =>
        have hpassed := @passed_cons_of_not judge onward rest r fun h => by simp [hj] at h
        refine Or.inr ⟨r, rest, by rw [hpassed, List.nil_append], Or.inr (Or.inl ⟨?_, hgo, hj⟩)⟩
        rw [hunt, if_pos hgo, hj]
      | hidden =>
        have hskip : hunt judge onward (r :: rest) = hunt judge onward rest := by
          rw [hunt, if_pos hgo, hj]
        rw [hskip, passed_cons_hidden hgo hj]
        rcases ih with ⟨hnothing, hall⟩ | ⟨x, back, hsplit, hend⟩
        · exact Or.inl ⟨hnothing, by rw [hall]⟩
        · refine Or.inr ⟨x, back, ?_, hend⟩
          rw [List.cons_append, ← hsplit]

end Flat

namespace ScanStats

/-- Records stepped over, walks started at a bound, and walks stopped by one, in addition. -/
def add (n : ScanStats) (dir : Direction) (skips seeks exits : Nat) : ScanStats :=
  match dir with
  | .forward => { n with
      nextSkips := n.nextSkips + skips
      boundSeeks := n.boundSeeks + seeks
      boundExits := n.boundExits + exits }
  | .backward => { n with
      prevSkips := n.prevSkips + skips
      boundSeeks := n.boundSeeks + seeks
      boundExits := n.boundExits + exits }

variable (n : ScanStats) (dir : Direction)

@[simp] theorem add_zero : n.add dir 0 0 0 = n := by
  cases dir <;> rfl

theorem add_add (skips seeks exits skips' seeks' exits' : Nat) :
    (n.add dir skips seeks exits).add dir skips' seeks' exits' =
      n.add dir (skips + skips') (seeks + seeks') (exits + exits') := by
  cases dir <;> simp [add, Nat.add_assoc]

private theorem skip_eq_add : n.skip dir = n.add dir 1 0 0 := by
  cases dir <;> rfl

end ScanStats

namespace Scan

variable {s : Scan}

theorem onStore_run {α : Type} {call : StoreM α} {x : α} {t : Store}
    (h : call.run s.table.store = .ok x t) :
    (onStore call).run s = .ok x { s with table.store := t } := by
  show Scan.onStore call s = _
  simp only [Scan.onStore, Table.onStore, EStateM.run, show call s.table.store = _ from h]

theorem onStore_run_error {α : Type} {call : StoreM α} {fault : ImageFault} {t : Store}
    (h : call.run s.table.store = .error fault t) :
    (onStore call).run s = .error (.ofImage fault) { s with table.store := t } := by
  show Scan.onStore call s = _
  simp only [Scan.onStore, Table.onStore, EStateM.run, show call s.table.store = _ from h]

/-- What one seek of a hunt comes to: the hunt ends with what the seek handed out, or it goes on past the
record that the seek handed out. -/
inductive Round
  | ends (found : Option Record) (r : EStateM.Result Error Scan Catch)
  | goesOn (x : Record) (s : Scan)

def round (dir : Direction) (reader : Transaction) (onward : Bytes → Bool) (m : Seek) (s : Scan) :
    Round :=
  match (onStore (Store.seek m)).run s with
  | .error e s => .ends none (.error e s)
  | .ok none s => .ends none (.ok .nothing s)
  | .ok (some x) s =>
    if onward x.key then
      match s.table.judge reader x with
      | .value b => .ends (some x) (.ok (.held ⟨x.key, b⟩) s)
      | .hidden => .goesOn x { s with table.scans := s.table.scans.skip dir }
      | .conflict => .ends (some x) (.error (s.conflict x.key) s)
    else .ends (some x) (.ok (.barred x) s)

variable {dir : Direction} {reader : Transaction} {onward : Bytes → Bool} {m : Seek}

/-- Round after round to the end, with the seeks that are made and what they hand out. -/
inductive Rounds (dir : Direction) (reader : Transaction) (onward : Bytes → Bool) :
    Seek → Scan → List (Seek × Option Record) → EStateM.Result Error Scan Catch → Prop
  | last {m : Seek} {s : Scan} {found : Option Record} {r : EStateM.Result Error Scan Catch}
    (h : round dir reader onward m s = .ends found r) : Rounds dir reader onward m s [(m, found)] r
  | more {m : Seek} {x : Record} {s s' : Scan} {made : List (Seek × Option Record)}
    {r : EStateM.Result Error Scan Catch} (h : round dir reader onward m s = .goesOn x s')
    (rest : Rounds dir reader onward (dir.beyond x.key) s' made r) :
    Rounds dir reader onward m s ((m, some x) :: made) r

private theorem hunt_succ (n : Nat) : (hunt dir reader onward (n + 1) m).run s =
    match round dir reader onward m s with
    | .ends _ r => r
    | .goesOn x s' => (hunt dir reader onward n (dir.beyond x.key)).run s' := by
  simp only [hunt, round, EStateM.run_bind]
  cases (onStore (Store.seek m)).run s with
  | error e t => rfl
  | ok found t =>
    cases found with
    | none => rfl
    | some x =>
      dsimp only
      cases onward x.key with
      | false => rfl
      | true =>
        simp only [if_true, EStateM.run_bind, EStateM.run_get, Table.judge]
        cases t.table.ledger.resolve reader x.versions <;> rfl

/-- A hunt that is allowed as many seeks as are made makes them. -/
theorem Rounds.hunt_eq {made : List (Seek × Option Record)} {r : EStateM.Result Error Scan Catch}
    (h : Rounds dir reader onward m s made r) {n : Nat} (hn : made.length ≤ n) :
    (hunt dir reader onward n m).run s = r := by
  induction h generalizing n with
  | last h =>
    obtain ⟨n, rfl⟩ := Nat.exists_eq_add_one_of_ne_zero (Nat.ne_zero_of_lt hn)
    rw [hunt_succ, h]
  | more h _ ih =>
    obtain ⟨n, rfl⟩ := Nat.exists_eq_add_one_of_ne_zero (Nat.ne_zero_of_lt hn)
    rw [hunt_succ, h]
    exact ih (Nat.le_of_succ_le_succ hn)

theorem conflict_eq {t : Table} (h : s.table.Alike t) (key : Bytes) :
    conflict ⟨s.cursor, t⟩ key = s.conflict key := by
  rw [conflict, conflict, h.format]

def huntEnd (s : Scan) (t : Table) : Except Record Catch → EStateM.Result Error Scan Catch
  | .ok found => .ok found ⟨s.cursor, t⟩
  | .error r => .error (s.conflict r.key) ⟨s.cursor, t⟩

theorem seek_head (dir : Direction) (hs : s.table.store.Valid) (hm : dir.Along m) :
    ∃ t, s.table.Alike t ∧ t.store.Valid ∧ t.scans = s.table.scans ∧
      (onStore (Store.seek m)).run s = .ok (s.table.ahead dir m).head? ⟨s.cursor, t⟩ ∧
      t.store.visited = s.table.store.visited + (s.table.ahead dir m).head?.toList.length := by
  obtain ⟨t, hseek, hst, ht, hvisited⟩ := Store.seek_counted hs m
  have hpick : Flat.pick s.table.store.order s.table.store.records m =
      (s.table.ahead dir m).head? := Flat.pick_eq_head? hm _
  rw [hpick] at hseek hvisited
  exact ⟨{ s.table with store := t }, ⟨rfl, rfl, hst⟩, ht, rfl, onStore_run hseek, hvisited⟩

/-- The seeks of a hunt over these records: the first from `m`, each other one past the next of the
records that the hunt steps over. -/
def seeks (judge : Record → Outcome) (onward : Bytes → Bool) (dir : Direction) (m : Seek)
    (l : List Record) : List Seek :=
  m :: (Flat.passed judge onward l).map fun x => dir.beyond x.key

/-- The rounds of a hunt end. Each seek but the first goes on past the next one of the records that the
hunt steps over, each record that is handed out counts as visited, and each one stepped over as such. -/
theorem exists_rounds (dir : Direction) (reader : Transaction) (onward : Bytes → Bool)
    (hs : s.table.store.Valid) (hm : dir.Along m) {l : List Record}
    (hahead : s.table.ahead dir m = l) :
    ∃ t made, s.table.Alike t ∧ t.store.Valid ∧
      Rounds dir reader onward m s made
        (s.huntEnd t (Flat.hunt (s.table.judge reader) onward l)) ∧
      made.map Prod.fst = seeks (s.table.judge reader) onward dir m l ∧
      made.filterMap Prod.snd = Flat.handed (s.table.judge reader) onward l ∧
      t.store.visited =
        s.table.store.visited + (Flat.handed (s.table.judge reader) onward l).length ∧
      t.scans =
        s.table.scans.add dir (Flat.passed (s.table.judge reader) onward l).length 0 0 := by
  induction l generalizing s m with
  | nil =>
    obtain ⟨t, hst, ht, hscans, hrun, hvisited⟩ := seek_head dir hs hm
    rw [hahead] at hrun hvisited
    refine ⟨t, [(m, none)], hst, ht, .last ?_, rfl, rfl, hvisited,
      hscans.trans (s.table.scans.add_zero dir).symm⟩
    rw [round, hrun]
    rfl
  | cons r rest ih =>
    obtain ⟨t, hst, ht, hscans, hrun, hvisited⟩ := seek_head dir hs hm
    rw [hahead] at hrun hvisited
    have hround : round dir reader onward m s =
        if onward r.key then
          match s.table.judge reader r with
          | .value b => .ends (some r) (.ok (.held ⟨r.key, b⟩) ⟨s.cursor, t⟩)
          | .hidden => .goesOn r ⟨s.cursor, { t with scans := t.scans.skip dir }⟩
          | .conflict => .ends (some r) (.error (s.conflict r.key) ⟨s.cursor, t⟩)
        else .ends (some r) (.ok (.barred r) ⟨s.cursor, t⟩) := by
      simp only [round, hrun, List.head?_cons, hst.judge_eq, conflict_eq hst]
    by_cases hpass : onward r.key = true ∧ s.table.judge reader r = .hidden
    · -- the next seek goes on from a scan that differs in what it counted
      obtain ⟨hgo, hj⟩ := hpass
      let u : Scan := ⟨s.cursor, { t with scans := t.scans.skip dir }⟩
      have hsu : s.table.Alike u.table := ⟨hst.format, hst.ledger, hst.store⟩
      have hrest : u.table.ahead dir (dir.beyond r.key) = rest := by
        rw [hsu.ahead_eq]
        exact Flat.ahead_beyond hs.ascending hm hahead
      obtain ⟨v, made, huv, hv, hrounds, hseeks, hhanded, hcount, hskips⟩ :=
        ih (s := u) ht (Direction.along_beyond dir r.key) hrest
      rw [hsu.judge_eq] at hrounds hseeks hhanded hcount hskips
      rw [hgo, hj] at hround
      have hhunt : Flat.hunt (s.table.judge reader) onward (r :: rest) =
          Flat.hunt (s.table.judge reader) onward rest := by
        rw [Flat.hunt, if_pos hgo, hj]
      have hend (x : Except Record Catch) : u.huntEnd v x = s.huntEnd v x := by
        cases x with
        | ok found => rfl
        | error x => exact congrArg (EStateM.Result.error · _) (conflict_eq hsu x.key)
      rw [hend] at hrounds
      have hhere : Flat.handed (s.table.judge reader) onward (r :: rest) =
          r :: Flat.handed (s.table.judge reader) onward rest := by
        rw [Flat.handed, Flat.passed_cons_hidden hgo hj, List.length_cons, List.take_succ_cons,
          Flat.handed]
      rw [hhere, seeks, Flat.passed_cons_hidden hgo hj, hhunt]
      refine ⟨v, (m, some r) :: made, hsu.trans huv, hv, .more hround hrounds, ?_, ?_, ?_, ?_⟩
      · rw [List.map_cons, hseeks, seeks, List.map_cons]
      · exact congrArg (r :: ·) hhanded
      · have hone : u.table.store.visited = s.table.store.visited + 1 := hvisited
        rw [hcount, hone, List.length_cons]
        omega
      · have hone : u.table.scans = s.table.scans.add dir 1 0 0 := by
          rw [← ScanStats.skip_eq_add, ← hscans]
        rw [hskips, hone, ScanStats.add_add, List.length_cons, Nat.add_comm 1]
    · rw [seeks, Flat.handed, Flat.passed_cons_of_not hpass]
      refine ⟨t, [(m, some r)], hst, ht, .last ?_, rfl, rfl, hvisited,
        hscans.trans (s.table.scans.add_zero dir).symm⟩
      rw [hround, Flat.hunt]
      cases hgo : onward r.key with
      | false => rfl
      | true =>
        rw [if_pos rfl, if_pos rfl]
        cases hj : s.table.judge reader r with
        | value b => rfl
        | conflict => rfl
        | hidden => exact absurd ⟨hgo, hj⟩ hpass

theorem length_of_seeks {made : List (Seek × Option Record)} {judge : Record → Outcome}
    {l : List Record} (h : made.map Prod.fst = seeks judge onward dir m l) :
    made.length = (Flat.passed judge onward l).length + 1 := by
  rw [← List.length_map Prod.fst, h, seeks, List.length_cons, List.length_map]

/-- With enough seeks, a hunt finds what the hunt over the flat list finds. -/
theorem hunt_run (dir : Direction) (reader : Transaction) (onward : Bytes → Bool) (n : Nat)
    (hs : s.table.store.Valid) (hm : dir.Along m) (hn : (s.table.ahead dir m).length < n) :
    ∃ t, s.table.Alike t ∧ t.store.Valid ∧ (hunt dir reader onward n m).run s =
      match Flat.hunt (s.table.judge reader) onward (s.table.ahead dir m) with
      | .ok c => .ok c ⟨s.cursor, t⟩
      | .error r => .error (s.conflict r.key) ⟨s.cursor, t⟩ := by
  obtain ⟨t, made, hst, ht, hrounds, hseeks, -⟩ := exists_rounds dir reader onward hs hm rfl
  refine ⟨t, hst, ht, (hrounds.hunt_eq ?_).trans ?_⟩
  · have hpassed := (Flat.passed_prefix (s.table.judge reader) onward (s.table.ahead dir m)).length_le
    rw [length_of_seeks hseeks]
    omega
  · cases Flat.hunt (s.table.judge reader) onward (s.table.ahead dir m) <;> rfl

end Scan

end Keyspan
