import Keyspan.Proofs.Cursor.Tally

set_option autoImplicit false
set_option relaxedAutoImplicit false

namespace Keyspan

theorem Flat.ahead_of_split {order : KeyOrder} {dir : Direction} {l front back : List Record}
    {r : Record} (h : Ascending order l) {m : Seek} (hm : dir.Along m)
    (hsplit : ahead order dir m l = front ++ r :: back) :
    ahead order dir (dir.beyond r.key) l = back := by
  induction front generalizing m with
  | nil => exact ahead_beyond h hm hsplit
  | cons x front ih => exact ih (Direction.along_beyond dir x.key) (ahead_beyond h hm hsplit)

namespace Scan

variable {s : Scan} {dir : Direction}

/-- The records that a walk of so many steps reads, in order. -/
inductive Visits (dir : Direction) : Nat → Scan → List Record → Prop
  | none (s : Scan) : Visits dir 0 s []
  | last {n : Nat} {s : Scan} {made : List (Seek × Option Record)} (makes : s.Makes dir made)
    (stops : ∀ e u, (step dir).run s ≠ .ok (some e) u) :
    Visits dir (n + 1) s (made.filterMap Prod.snd)
  | more {n : Nat} {s u : Scan} {made : List (Seek × Option Record)} {e : Entry} {l : List Record}
    (makes : s.Makes dir made) (goes : (step dir).run s = .ok (some e) u) (rest : Visits dir n u l) :
    Visits dir (n + 1) s (made.filterMap Prod.snd ++ l)

def reads? (s : Scan) (r : Record) : Option Entry :=
  match s.table.judge s.reader r with
  | .value b => entry s.table.format ⟨r.key, b⟩
  | _ => none

/-- The records from where the walk starts to the bound ahead. -/
def within (s : Scan) (dir : Direction) : List Record :=
  (s.table.ahead dir (s.originSeek dir)).takeWhile (s.onward dir)

/-- The first record past the bound ahead, if there is one. -/
def fence (s : Scan) (dir : Direction) : List Record :=
  ((s.table.ahead dir (s.originSeek dir)).dropWhile (s.onward dir)).take 1

def skips (s : Scan) (dir : Direction) : Nat :=
  (s.within dir).countP s.hides

theorem stretch_cases (s : Scan) (dir : Direction) :
    (s.quarry dir = .ok .nothing ∧ s.handed dir = s.passed dir ∧
      s.within dir = s.passed dir ∧ s.fence dir = []) ∨
    ∃ r back, s.table.ahead dir (s.originSeek dir) = s.passed dir ++ r :: back ∧
      s.handed dir = s.passed dir ++ [r] ∧
      ((s.within dir = s.passed dir ++ r :: back.takeWhile (s.onward dir) ∧
        s.fence dir = (back.dropWhile (s.onward dir)).take 1 ∧
        ((∃ b, s.quarry dir = .ok (.held ⟨r.key, b⟩) ∧ s.table.judge s.reader r = .value b) ∨
          (s.quarry dir = .error r ∧ s.table.judge s.reader r = .conflict))) ∨
      (s.quarry dir = .ok (.barred r) ∧ s.within dir = s.passed dir ∧ s.fence dir = [r])) := by
  have hpassed : ∀ x ∈ s.passed dir, s.onward dir x = true := fun x hx => (and_of_mem_passed hx).1
  have hwithin : ∀ l, s.table.ahead dir (s.originSeek dir) = s.passed dir ++ l →
      s.within dir = s.passed dir ++ l.takeWhile (s.onward dir) ∧
      s.fence dir = (l.dropWhile (s.onward dir)).take 1 := by
    intro l hl
    rw [within, fence, hl, List.takeWhile_append_of_pos hpassed, List.dropWhile_append_of_pos hpassed]
    exact ⟨rfl, rfl⟩
  rcases end_cases s dir with ⟨hquarry, hall, hread⟩ | ⟨r, back, hsplit, -, hread, hend⟩
  · obtain ⟨hin, hout⟩ := hwithin [] ((List.append_nil _).trans hall).symm
    exact Or.inl ⟨hquarry, hread, hin.trans (List.append_nil _), hout⟩
  · obtain ⟨hin, hout⟩ := hwithin (r :: back) hsplit
    refine Or.inr ⟨r, back, hsplit, hread, ?_⟩
    rcases hend with ⟨b, hquarry, hgo, hj⟩ | ⟨hquarry, hgo, hj⟩ | ⟨hquarry, hgo⟩
    · rw [List.takeWhile_cons_of_pos hgo] at hin
      rw [List.dropWhile_cons_of_pos hgo] at hout
      exact Or.inl ⟨hin, hout, Or.inl ⟨b, hquarry, hj⟩⟩
    · rw [List.takeWhile_cons_of_pos hgo] at hin
      rw [List.dropWhile_cons_of_pos hgo] at hout
      exact Or.inl ⟨hin, hout, Or.inr ⟨hquarry, hj⟩⟩
    · have hno : ¬ s.onward dir r = true := by simp [hgo]
      rw [List.takeWhile_cons_of_neg hno, List.append_nil] at hin
      rw [List.dropWhile_cons_of_neg hno] at hout
      exact Or.inr ⟨hquarry, hin, hout⟩

def landedOn (s : Scan) (t : Table) (h : Held) : Scan :=
  ⟨{ s.cursor with place := .on h }, t⟩

section Landed

variable {t : Table} {r : Record} {front back : List Record} {b : Bytes} (hst : s.table.Alike t)
include hst

private theorem judge_landedOn (h : Held) :
    (s.landedOn t h).table.judge (s.landedOn t h).reader = s.table.judge s.reader := by
  rw [← reader_eq hst, ← hst.judge_eq]
  rfl

private theorem hides_landedOn (h : Held) : (s.landedOn t h).hides = s.hides := by
  funext r
  rw [hides, hides, judge_landedOn hst]

private theorem reads?_landedOn (h : Held) : (s.landedOn t h).reads? = s.reads? := by
  funext r
  rw [reads?, reads?, judge_landedOn hst]
  show (match s.table.judge s.reader r with
    | .value b => entry t.format ⟨r.key, b⟩
    | _ => none) = _
  rw [hst.format]

private theorem onward_landedOn (h : Held) : (s.landedOn t h).onward dir = s.onward dir := by
  funext r
  show dir.admits t.format s.cursor.bounds r.key = _
  rw [hst.format, onward]

theorem ahead_landedOn (hs : s.table.store.Valid)
    (hordered : s.table.store.order = .typed s.table.format)
    (hsplit : s.table.ahead dir (s.originSeek dir) = front ++ r :: back) :
    t.ahead dir ((s.landedOn t ⟨r.key, b⟩).originSeek dir) = back ∧
      (s.landedOn t ⟨r.key, b⟩).cursor.startsAtBound dir t.format = false := by
  have hmem : r ∈ s.table.ahead dir (s.originSeek dir) := by
    rw [hsplit]
    exact List.mem_append_right front List.mem_cons_self
  have hreaches : dir.reaches t.format s.cursor.bounds r.key = true := by
    rw [hst.format]
    exact reaches_of_startsWith ((mem_ahead_iff hordered).1 hmem).2
  have horigin : (s.landedOn t ⟨r.key, b⟩).originSeek dir = dir.beyond r.key := if_pos hreaches
  constructor
  · rw [horigin, hst.ahead_eq]
    exact Flat.ahead_of_split hs.ascending (along_originSeek s dir) hsplit
  · show ((dir.start s.cursor.bounds).isSome && !dir.reaches t.format s.cursor.bounds r.key) = false
    rw [hreaches, Bool.not_true, Bool.and_false]

end Landed

/-- The entries that the reader reads from where the walk starts to the bound ahead. -/
def entries (s : Scan) (dir : Direction) : List Entry :=
  (s.within dir).filterMap s.reads?

/-- A walk returns all entries to the bound ahead and then finds nothing more. It reads the records to the
bound, and the first one past it if there is one. -/
structure Sweeps (s : Scan) (dir : Direction) (n : Nat) (t : Table) (p : Place) : Prop where
  alike : s.table.Alike t
  valid : t.store.Valid
  walk : walk dir n s = ((s.entries dir).map (fun e => .ok (some e)) ++ [.ok none],
    ⟨{ s.cursor with place := p }, t⟩)
  visits : Visits dir n s (s.within dir ++ s.fence dir)
  visited : t.store.visited = s.table.store.visited + (s.within dir ++ s.fence dir).length
  scans : t.scans = s.table.scans.add dir (s.skips dir)
    (s.cursor.startsAtBound dir s.table.format).toNat (s.fence dir).length

private theorem reads?_of_mem_passed {x : Record} (h : x ∈ s.passed dir) : s.reads? x = none := by
  rw [reads?, of_decide_eq_true (and_of_mem_passed h).2]

private theorem filterMap_passed (s : Scan) (dir : Direction) :
    (s.passed dir).filterMap s.reads? = [] :=
  List.filterMap_eq_nil_iff.2 fun _ hx => reads?_of_mem_passed hx

private theorem countP_passed (s : Scan) (dir : Direction) :
    (s.passed dir).countP s.hides = (s.passed dir).length :=
  List.countP_eq_length.2 fun _ hx => (and_of_mem_passed hx).2

variable {t : Table} {made : List (Seek × Option Record)} {n : Nat}

theorem Counted.sweeps_last (h : s.Counted dir (step dir) t made) {p : Place}
    (hresult : s.result dir = (.ok none, p)) (hin : s.within dir = s.passed dir)
    (hread : s.handed dir = s.passed dir ++ s.fence dir)
    (hexits : barrings (s.quarry dir) = (s.fence dir).length) : s.Sweeps dir (n + 1) t p := by
  have hrun := h.run
  rw [hresult] at hrun
  have hentries : s.entries dir = [] := by rw [entries, hin, filterMap_passed]
  refine ⟨h.alike, h.valid, ?_, ?_, ?_, ?_⟩
  · rw [hentries, Scan.walk, hrun]
    rfl
  · rw [hin, ← hread, ← h.handed]
    refine .last h.makes fun e u hsome => ?_
    rw [hrun] at hsome
    cases hsome
  · rw [h.visited, hread, hin]
  · rw [h.scans, hexits, skips, hin, countP_passed]

theorem Counted.sweeps_more (h : s.Counted dir (step dir) t made) (hs : s.table.store.Valid)
    (hordered : s.table.store.order = .typed s.table.format) {r : Record} {back : List Record}
    {b : Bytes} {e : Entry} (hsplit : s.table.ahead dir (s.originSeek dir) = s.passed dir ++ r :: back)
    (hread : s.handed dir = s.passed dir ++ [r])
    (hin : s.within dir = s.passed dir ++ r :: back.takeWhile (s.onward dir))
    (hout : s.fence dir = (back.dropWhile (s.onward dir)).take 1)
    (hquarry : s.quarry dir = .ok (.held ⟨r.key, b⟩)) (hj : s.table.judge s.reader r = .value b)
    (hresult : s.result dir = (.ok (some e), .on ⟨r.key, b⟩)) (hreads : s.reads? r = some e) :
    let u := s.landedOn t ⟨r.key, b⟩
    s.within dir = s.passed dir ++ r :: u.within dir ∧ s.entries dir = e :: u.entries dir ∧
      ∀ v p, u.Sweeps dir n v p → s.Sweeps dir (n + 1) v p := by
  intro u
  obtain ⟨hahead, hseeds⟩ := ahead_landedOn (b := b) h.alike hs hordered hsplit
  have hrun : (step dir).run s = .ok (some e) u := by
    rw [h.run, hresult]
    rfl
  have hwithin : u.within dir = back.takeWhile (s.onward dir) := by
    rw [within, onward_landedOn h.alike, ← hahead]
    rfl
  have hfence : u.fence dir = s.fence dir := by
    rw [fence, onward_landedOn h.alike, hout, ← hahead]
    rfl
  have hall : s.within dir = s.passed dir ++ r :: u.within dir := by rw [hin, hwithin]
  have hentries : s.entries dir = e :: u.entries dir := by
    rw [entries, hall, List.filterMap_append, filterMap_passed, List.nil_append,
      List.filterMap_cons_some hreads, entries, reads?_landedOn h.alike]
  have hskips : s.skips dir = (s.passed dir).length + u.skips dir := by
    have hno : ¬ s.hides r = true := by simp [hides, hj]
    rw [skips, hall, List.countP_append, countP_passed, List.countP_cons_of_neg hno, skips,
      hides_landedOn h.alike]
  refine ⟨hall, hentries, fun v p k => ⟨h.alike.trans k.alike, k.valid, ?_, ?_, ?_, ?_⟩⟩
  · rw [Scan.walk, hrun, hentries]
    dsimp only
    rw [k.walk]
    rfl
  · have hstretch : s.within dir ++ s.fence dir =
        made.filterMap Prod.snd ++ (u.within dir ++ u.fence dir) := by
      rw [h.handed, hread, hall, hfence]
      simp
    rw [hstretch]
    exact .more h.makes hrun k.visits
  · have hvisited : u.table.store.visited = s.table.store.visited + (s.handed dir).length := h.visited
    rw [k.visited, hvisited, hread, hall, hfence]
    simp only [List.length_append, List.length_cons, List.length_nil]
    omega
  · have hscans : u.table.scans = s.table.scans.add dir (s.passed dir).length
        (s.cursor.startsAtBound dir s.table.format).toNat 0 := by
      have hscans := h.scans
      rw [hquarry] at hscans
      exact hscans
    have hnot : u.cursor.startsAtBound dir u.table.format = false := hseeds
    rw [k.scans, hscans, hnot, ScanStats.add_add, hskips, hfence, Nat.zero_add]
    rfl

/-- What a walk needs of its cursor and table, wherever the cursor stands. -/
structure Walks (s : Scan) : Prop where
  valid : s.table.store.Valid
  ordered : s.table.store.order = .typed s.table.format
  unpacks : ∀ r ∈ s.table.store.records, ∃ key, s.table.format.unpackKey r.key = .ok key
  fits : s.cursor.options.releaseEvict = true → s.table.store.Fits
  unprepared : ∀ txn, s.cursor.txn = some txn → s.table.ledger.state txn ≠ .prepared

private theorem Walks.landedOn (h : s.Walks) (hst : s.table.Alike t) (ht : t.store.Valid) (x : Held) :
    (s.landedOn t x).Walks where
  valid := ht
  ordered := hst.store.order.trans (h.ordered.trans (congrArg KeyOrder.typed hst.format.symm))
  unpacks r hr := by
    have hr' : r ∈ s.table.store.records := hst.store.records_eq ▸ hr
    show ∃ key, t.format.unpackKey r.key = .ok key
    rw [hst.format]
    exact h.unpacks r hr'
  fits hrelease := hst.store.fits (h.fits hrelease)
  unprepared txn htxn := by
    show t.ledger.state txn ≠ .prepared
    rw [hst.ledger]
    exact h.unprepared txn htxn

/-- No record from where the walk starts to the bound ahead is in conflict. -/
def Calm (s : Scan) (dir : Direction) : Prop :=
  ∀ r ∈ s.within dir, s.table.judge s.reader r ≠ .conflict

/-- How a walk goes on: its next step finds nothing and the range is over, or returns the first entry left
and the walk goes on from there, or is refused. -/
inductive Stride (s : Scan) (dir : Direction) : Prop
  | ends {t : Table} {p : Place} (calm : s.Calm dir) (entries : s.entries dir = [])
    (sweeps : ∀ n, s.Sweeps dir (n + 1) t p) : Stride s dir
  | lands {t : Table} {x : Held} {e : Entry} (walks : (s.landedOn t x).Walks)
    (run : (step dir).run s = .ok (some e) (s.landedOn t x))
    (calm : (s.landedOn t x).Calm dir ↔ s.Calm dir)
    (entries : s.entries dir = e :: (s.landedOn t x).entries dir)
    (sweeps : ∀ n u p, (s.landedOn t x).Sweeps dir n u p → s.Sweeps dir (n + 1) u p) : Stride s dir
  | refused {u : Scan} {e : Error} (contested : ¬ s.Calm dir) (run : (step dir).run s = .error e u) :
    Stride s dir

private theorem ne_conflict_of_mem_passed {x : Record} (h : x ∈ s.passed dir) :
    s.table.judge s.reader x ≠ .conflict := by
  rw [of_decide_eq_true (and_of_mem_passed h).2]
  exact nofun

private theorem calm_of_passed (h : s.within dir = s.passed dir) : s.Calm dir := by
  rw [Calm, h]
  exact fun x hx => ne_conflict_of_mem_passed hx

private theorem Walks.stride (h : s.Walks) (hopen : s.isExhausted dir = false) : s.Stride dir := by
  obtain ⟨t, made, hstep⟩ := step_counted dir h.valid h.fits h.unprepared hopen
  rcases stretch_cases s dir with ⟨hquarry, hread, hin, hout⟩ |
    ⟨r, back, hsplit, hread, ⟨hin, hout, ⟨b, hquarry, hj⟩ | ⟨hquarry, hj⟩⟩ | ⟨hquarry, hin, hout⟩⟩
  · refine .ends (t := t) (p := {}) (calm_of_passed hin) (by rw [entries, hin, filterMap_passed])
      fun n => hstep.sweeps_last (by rw [result, hquarry]) hin ?_ ?_
    · rw [hread, hout, List.append_nil]
    · rw [hquarry, hout]
      rfl
  · have hr : r ∈ s.table.store.records := by
      have hmem : r ∈ s.table.ahead dir (s.originSeek dir) := by
        rw [hsplit]
        exact List.mem_append_right _ List.mem_cons_self
      exact (Flat.mem_ahead.1 hmem).1
    obtain ⟨key, hkey⟩ := h.unpacks r hr
    have hresult : s.result dir = (.ok (some ⟨key, b⟩), .on ⟨r.key, b⟩) := by
      rw [result, hquarry]
      simp only [hkey]
    have hreads : s.reads? r = some ⟨key, b⟩ := by
      rw [reads?, hj]
      simp only [entry, hkey]
    have hmore := fun n => hstep.sweeps_more (n := n) h.valid h.ordered hsplit hread hin hout
      hquarry hj hresult hreads
    obtain ⟨hall, hentries, -⟩ := hmore 0
    refine .lands (h.landedOn hstep.alike hstep.valid ⟨r.key, b⟩) ?_ ?_ hentries fun n => (hmore n).2.2
    · rw [hstep.run, hresult]
      rfl
    · have hhere : s.table.judge s.reader r ≠ .conflict := by simp [hj]
      rw [Calm, Calm, judge_landedOn hstep.alike, hall]
      refine ⟨fun hlater x hx => ?_, fun hcalm x hx => hcalm x ?_⟩
      · rcases List.mem_append.1 hx with hx | hx
        · exact ne_conflict_of_mem_passed hx
        · rcases List.mem_cons.1 hx with rfl | hx
          · exact hhere
          · exact hlater x hx
      · exact List.mem_append_right _ (List.mem_cons_of_mem r hx)
  · refine .refused (fun hcalm => hcalm r ?_ hj) (u := ⟨s.cursor, t⟩) (e := s.conflict r.key) ?_
    · rw [hin]
      exact List.mem_append_right _ List.mem_cons_self
    · rw [hstep.run, result, hquarry]
      rfl
  · refine .ends (t := t) (p := s.cursor.place.stop dir) (calm_of_passed hin)
      (by rw [entries, hin, filterMap_passed])
      fun n => hstep.sweeps_last (by rw [result, hquarry]) hin ?_ ?_
    · rw [hread, hout]
    · rw [hquarry, hout]
      rfl

/-- A walk with enough steps over records that are not in conflict sweeps its range. -/
theorem Walks.exists_sweeps (h : s.Walks) (hopen : s.isExhausted dir = false) (hcalm : s.Calm dir)
    (hn : (s.entries dir).length < n) : ∃ t p, s.Sweeps dir n t p := by
  induction n generalizing s with
  | zero => exact absurd hn (Nat.not_lt_zero _)
  | succ n ih =>
    cases h.stride hopen with
    | ends _ _ sweeps => exact ⟨_, _, sweeps n⟩
    | lands walks _ calm entries sweeps =>
      rw [entries, List.length_cons] at hn
      obtain ⟨v, p, hsweeps⟩ := ih walks rfl (calm.2 hcalm) (Nat.lt_of_succ_lt_succ hn)
      exact ⟨v, p, sweeps n v p hsweeps⟩
    | refused contested => exact absurd hcalm contested

theorem Walks.entries_of_drained (h : s.Walks) (hopen : s.isExhausted dir = false) {es : List Entry}
    (hwalk : (Scan.walk dir n s).1 = es.map (fun e => .ok (some e)) ++ [.ok none]) :
    s.Calm dir ∧ s.entries dir = es := by
  induction n generalizing s es with
  | zero => cases es <;> cases hwalk
  | succ n ih =>
    cases h.stride hopen with
    | ends calm entries sweeps =>
      rw [(sweeps n).walk, entries] at hwalk
      cases es with
      | nil => exact ⟨calm, entries⟩
      | cons e es => cases hwalk
    | lands walks run calm entries _ =>
      rw [Scan.walk, run] at hwalk
      cases es with
      | nil => cases hwalk
      | cons e es =>
        obtain ⟨hhead, htail⟩ := List.cons.inj hwalk
        obtain rfl := Option.some.inj (Except.ok.inj hhead)
        obtain ⟨hcalm, hentries⟩ := ih walks rfl htail
        exact ⟨calm.1 hcalm, by rw [entries, hentries]⟩
    | refused _ run =>
      rw [Scan.walk, run] at hwalk
      cases es with
      | nil => cases hwalk
      | cons e es => cases hwalk

/-- The first record past the bound ahead is past it. -/
theorem fence_spec (s : Scan) (dir : Direction) : (s.fence dir).length ≤ 1 ∧
    ∀ r ∈ s.fence dir, r ∈ s.table.store.records ∧
      s.cursor.bounds.admits s.table.format r.key = false := by
  refine ⟨List.length_take_le 1 _, fun r hr => ?_⟩
  have hmem : r ∈ s.table.ahead dir (s.originSeek dir) :=
    (List.dropWhile_sublist _).subset ((List.take_sublist 1 _).subset hr)
  have hno : s.onward dir r = false := by
    have hhead := List.head?_dropWhile_not (s.onward dir) (s.table.ahead dir (s.originSeek dir))
    rw [fence] at hr
    cases hd : (s.table.ahead dir (s.originSeek dir)).dropWhile (s.onward dir) with
    | nil =>
      rw [hd] at hr
      cases hr
    | cons x rest =>
      rw [hd] at hr hhead
      obtain rfl := List.mem_singleton.1 hr
      exact hhead
  refine ⟨(Flat.mem_ahead.1 hmem).1, ?_⟩
  rw [Direction.admits_eq dir, show dir.admits _ _ _ = false from hno, Bool.false_and]

theorem within_of_unpositioned (hs : s.table.store.Valid)
    (hordered : s.table.store.order = .typed s.table.format) (dir : Direction)
    (hp : s.cursor.position = .unpositioned) : s.within dir =
      (dir.arrange s.table.store.records).filter fun r =>
        s.cursor.bounds.admits s.table.format r.key := by
  have haccepts : ∀ r, (s.originSeek dir).accepts (.typed s.table.format) r =
      (true && dir.reaches s.table.format s.cursor.bounds r.key) := by
    intro r
    rw [accepts_originSeek, Cursor.startsWith, hp, Bool.true_and]
  have hleads : Front.Leads (s.onward dir) (s.table.ahead dir (s.originSeek dir)) :=
    (meets_ahead hs hordered dir (s.originSeek dir)).imp fun hxy hy =>
      Direction.admits_of_meets hxy hy
  rw [within, ← hleads.filter_eq]
  exact (filter_ahead hordered haccepts).trans (by simp only [Bool.true_and])

theorem startsAtBound_of_unpositioned {c : Cursor} {f : Format} (dir : Direction)
    (hp : c.position = .unpositioned) :
    c.startsAtBound dir f = (dir.start c.bounds).isSome := by
  rw [Cursor.startsAtBound, hp, Bool.and_true]

end Scan

end Keyspan
