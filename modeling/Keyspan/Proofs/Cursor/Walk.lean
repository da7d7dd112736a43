import Keyspan.Proofs.Bound.Interval
import Keyspan.Proofs.Cursor.Step

set_option autoImplicit false
set_option relaxedAutoImplicit false

namespace Keyspan

open Std

namespace Direction

variable {dir : Direction} {f : Format} {b : Bounds}

theorem admits_eq (dir : Direction) (f : Format) (b : Bounds) (key : Bytes) :
    b.admits f key = (dir.admits f b key && dir.reaches f b key) := by
  cases dir with
  | forward => rfl
  | backward => exact Bool.and_comm _ _

theorem admits_of_meets {x y : Bytes} (h : dir.Meets (.typed f) x y)
    (hy : dir.admits f b y = true) : dir.admits f b x = true := by
  cases dir with
  | forward =>
    have hlt : (KeyOrder.typed f).compare x y = .lt := h
    exact Bounds.admitsForward_of_isLE (Ordering.isLE_of_eq_lt hlt) hy
  | backward =>
    have hlt : (KeyOrder.typed f).compare y x = .lt := OrientedCmp.lt_of_gt h
    exact Bounds.admitsBackward_of_isLE (Ordering.isLE_of_eq_lt hlt) hy

theorem not_admits_of_meets {x y : Bytes} (h : dir.Meets (.typed f) x y)
    (hx : dir.admits f b x = false) : dir.admits f b y = false := by
  cases hy : dir.admits f b y with
  | false => rfl
  | true =>
    rw [admits_of_meets h hy] at hx
    cases hx

theorem reaches_of_meets {x y : Bytes} (h : dir.Meets (.typed f) x y)
    (hx : dir.reaches f b x = true) : dir.reaches f b y = true := by
  cases dir with
  | forward =>
    have hyx : backward.Meets (.typed f) y x := OrientedCmp.gt_of_lt h
    exact admits_of_meets hyx hx
  | backward =>
    have hyx : forward.Meets (.typed f) y x := OrientedCmp.lt_of_gt h
    exact admits_of_meets hyx hx

end Direction

namespace Scan

theorem accepts_seedSeek (dir : Direction) (f : Format) (b : Bounds) (r : Record) :
    (seedSeek dir b).accepts (.typed f) r = dir.reaches f b r.key := by
  cases dir with
  | forward =>
    simp only [seedSeek, Direction.start, Direction.reaches, Bounds.admitsBackward]
    cases b.lower with
    | none => rfl
    | some bound =>
      obtain ⟨key, inclusive⟩ := bound
      cases inclusive <;> cases h : (KeyOrder.typed f).compare r.key key <;>
        simp [Direction.ofBound, Direction.beyond, Direction.atOrBeyond, Seek.accepts, h]
  | backward =>
    simp only [seedSeek, Direction.start, Direction.reaches, Bounds.admitsForward]
    cases b.upper with
    | none => rfl
    | some bound =>
      obtain ⟨key, inclusive⟩ := bound
      cases inclusive <;> cases h : (KeyOrder.typed f).compare r.key key <;>
        simp [Direction.ofBound, Direction.beyond, Direction.atOrBeyond, Seek.accepts, h]

/-- Each record is in conflict, shown with a value, or hidden; and what is shown is there. -/
structure Shows (s : Scan) (shown : Bytes → Bytes → Prop) : Prop where
  ordered : s.table.store.order = .typed s.table.format
  judged : ∀ r ∈ s.table.store.records, s.table.judge s.reader r = .conflict ∨
    (∃ b, s.table.judge s.reader r = .value b ∧ shown r.key b) ∨
    (s.table.judge s.reader r = .hidden ∧ ∀ b, ¬ shown r.key b)
  stored : ∀ k b, shown k b → ∃ r ∈ s.table.store.records, r.key = k
  unpacks : ∀ r ∈ s.table.store.records, ∃ key, s.table.format.unpackKey r.key = .ok key

/-- What is shown in range, as a walk meets it. -/
structure Lists (f : Format) (b : Bounds) (shown : Bytes → Bytes → Prop) (dir : Direction)
    (all : List Held) : Prop where
  meets : all.Pairwise fun x y => dir.Meets (.typed f) x.key y.key
  mem_iff : ∀ h, h ∈ all ↔ shown h.key h.value ∧ b.admits f h.key = true

/-- A walk from this position has these entries before it. -/
def Stands (p : Position) (all rest : List Held) : Prop :=
  (p = .unpositioned ∧ rest = all) ∨ ∃ done h, p = .positioned ⟨h.key⟩ ∧ all = done ++ h :: rest

variable {s : Scan} {shown : Bytes → Bytes → Prop} {dir : Direction} {all rest : List Held}

private theorem Stands.mem_of_mem {p : Position} (h : Stands p all rest) {x : Held} (hx : x ∈ rest) :
    x ∈ all := by
  rcases h with ⟨-, rfl⟩ | ⟨done, h, -, rfl⟩
  · exact hx
  · exact List.mem_append_right done (List.mem_cons_of_mem h hx)

private theorem Stands.pairwise {p : Position} (h : Stands p all rest) {R : Held → Held → Prop}
    (hall : all.Pairwise R) : rest.Pairwise R := by
  rcases h with ⟨-, rfl⟩ | ⟨done, h, -, rfl⟩
  · exact hall
  · exact (List.pairwise_cons.1 (List.pairwise_append.1 hall).2.1).2

/-- The records ahead of a walk are within its starting bound, and among them those that are shown in
range are the entries before it. -/
theorem Stands.ahead_iff (h : Stands s.cursor.position all rest) (hshows : s.Shows shown)
    (hlists : Lists s.table.format s.cursor.bounds shown dir all) :
    ∀ r ∈ s.table.store.records,
      ((s.originSeek dir).accepts s.table.store.order r = true →
        dir.reaches s.table.format s.cursor.bounds r.key = true) ∧
      ∀ b, ⟨r.key, b⟩ ∈ all →
        ((s.originSeek dir).accepts s.table.store.order r = true ↔ ⟨r.key, b⟩ ∈ rest) := by
  have hreaches : ∀ x ∈ all, dir.reaches s.table.format s.cursor.bounds x.key = true := by
    intro x hx
    have hin := ((hlists.mem_iff x).1 hx).2
    rw [Direction.admits_eq dir, Bool.and_eq_true] at hin
    exact hin.2
  intro r _
  rw [hshows.ordered]
  rcases h with ⟨hp, rfl⟩ | ⟨done, p, hp, rfl⟩
  · have horigin : s.originSeek dir = seedSeek dir s.cursor.bounds := by
      rw [originSeek, hp]
    rw [horigin, accepts_seedSeek]
    exact ⟨id, fun b hb => ⟨fun _ => hb, fun _ => hreaches _ hb⟩⟩
  · have hpin : dir.reaches s.table.format s.cursor.bounds p.key = true :=
      hreaches p (List.mem_append_right done List.mem_cons_self)
    have horigin : s.originSeek dir = dir.beyond p.key := by
      rw [originSeek, hp]
      exact if_pos hpin
    obtain ⟨-, hfrom, hcross⟩ := List.pairwise_append.1 hlists.meets
    have hafter := (List.pairwise_cons.1 hfrom).1
    rw [horigin, Direction.accepts_beyond]
    refine ⟨fun hm => Direction.reaches_of_meets hm hpin, fun b hb => ⟨fun hm => ?_, hafter _⟩⟩
    rcases List.mem_append.1 hb with hb | hb
    · have hback := hcross _ hb p List.mem_cons_self
      exact absurd (Direction.meets_trans hm hback) (Direction.not_meets_self _)
    · rcases List.mem_cons.1 hb with rfl | hb
      · exact absurd hm (Direction.not_meets_self _)
      · exact hb

theorem Stands.exists_record (h : Stands s.cursor.position all rest) (hshows : s.Shows shown)
    (hlists : Lists s.table.format s.cursor.bounds shown dir all) :
    ∀ x ∈ rest, ∃ r ∈ s.table.ahead dir (s.originSeek dir), r.key = x.key ∧
      s.table.judge s.reader r ≠ .hidden := by
  intro x hx
  have hall := h.mem_of_mem hx
  have hshown := ((hlists.mem_iff x).1 hall).1
  obtain ⟨r, hr, hkey⟩ := hshows.stored _ _ hshown
  have hx' : (⟨r.key, x.value⟩ : Held) = x := by rw [hkey]
  refine ⟨r, Flat.mem_ahead.2 ⟨hr, ?_⟩, hkey, ?_⟩
  · exact ((h.ahead_iff hshows hlists r hr).2 x.value (hx' ▸ hall)).2 (hx' ▸ hx)
  · intro hhidden
    rcases hshows.judged r hr with hc | ⟨b, hv, -⟩ | ⟨-, hno⟩
    · rw [hhidden] at hc
      cases hc
    · rw [hhidden] at hv
      cases hv
    · exact hno x.value (hkey ▸ hshown)

private theorem Stands.next {p : Position} {x : Held} (h : Stands p all (x :: rest)) :
    Stands (.positioned ⟨x.key⟩) all rest := by
  rcases h with ⟨-, hall⟩ | ⟨done, p, -, hall⟩
  · exact Or.inr ⟨[], x, rfl, hall.symm⟩
  · refine Or.inr ⟨done ++ [p], x, rfl, ?_⟩
    rw [hall, List.append_assoc]
    rfl

private theorem Shows.shown_of_value (h : s.Shows shown) {r : Record} (hr : r ∈ s.table.store.records)
    {b : Bytes} (hvalue : s.table.judge s.reader r = .value b) : shown r.key b := by
  rcases h.judged r hr with hc | ⟨b', hv, hshown⟩ | ⟨hh, -⟩
  · rw [hvalue] at hc
    cases hc
  · rw [hvalue] at hv
    obtain rfl := Outcome.value.inj hv
    exact hshown
  · rw [hvalue] at hh
    cases hh

theorem Stands.eq_nil_of_hidden (h : Stands s.cursor.position all rest) (hshows : s.Shows shown)
    (hlists : Lists s.table.format s.cursor.bounds shown dir all)
    (hhidden : ∀ r ∈ s.table.ahead dir (s.originSeek dir), s.table.judge s.reader r = .hidden) :
    rest = [] := by
  refine List.eq_nil_iff_forall_not_mem.2 fun x hx => ?_
  obtain ⟨r, hr, -, hno⟩ := h.exists_record hshows hlists x hx
  exact hno (hhidden r hr)

theorem meets_ahead (hs : s.table.store.Valid)
    (hordered : s.table.store.order = .typed s.table.format) (dir : Direction) (m : Seek) :
    (s.table.ahead dir m).Pairwise fun x y => dir.Meets (.typed s.table.format) x.key y.key := by
  rw [← hordered]
  exact Flat.meets_ahead hs.ascending m

theorem Stands.eq_cons_of_first (h : Stands s.cursor.position all rest)
    (hs : s.table.store.Valid) (hshows : s.Shows shown)
    (hlists : Lists s.table.format s.cursor.bounds shown dir all) {front back : List Record}
    {r : Record} (hsplit : s.table.ahead dir (s.originSeek dir) = front ++ r :: back)
    (hfront : ∀ x ∈ front, s.table.judge s.reader x = .hidden) {b : Bytes}
    (hr : ⟨r.key, b⟩ ∈ rest) : ∃ rest', rest = ⟨r.key, b⟩ :: rest' := by
  obtain ⟨x, rest', rfl⟩ := List.exists_cons_of_ne_nil (List.ne_nil_of_mem hr)
  have hmeets := meets_ahead hs hshows.ordered dir (s.originSeek dir)
  rcases List.mem_cons.1 hr with heq | hlater
  · exact ⟨rest', by rw [heq]⟩
  · -- were it a later one, the record of the next one would lie before its own
    have hafter := (List.pairwise_cons.1 (h.pairwise hlists.meets)).1 _ hlater
    obtain ⟨y, hy, hyx, hno⟩ := h.exists_record hshows hlists x List.mem_cons_self
    rw [hsplit] at hy hmeets
    rcases List.mem_append.1 hy with hy | hy
    · exact absurd (hfront y hy) hno
    · rcases List.mem_cons.1 hy with rfl | hy
      · rw [hyx] at hafter
        exact absurd hafter (Direction.not_meets_self _)
      · have hbefore := (List.pairwise_cons.1 (List.pairwise_append.1 hmeets).2.1).1 y hy
        rw [hyx] at hbefore
        exact absurd (Direction.meets_trans hafter hbefore) (Direction.not_meets_self _)

theorem Stands.not_admits_of_barred (h : Stands s.cursor.position all rest)
    (hs : s.table.store.Valid) (hshows : s.Shows shown)
    (hlists : Lists s.table.format s.cursor.bounds shown dir all) {front back : List Record}
    {r : Record} (hsplit : s.table.ahead dir (s.originSeek dir) = front ++ r :: back)
    (hfront : ∀ x ∈ front, s.table.judge s.reader x = .hidden) {b : Bounds}
    (hbar : dir.admits s.table.format b r.key = false) :
    ∀ x ∈ rest, dir.admits s.table.format b x.key = false := by
  intro x hx
  have hmeets := meets_ahead hs hshows.ordered dir (s.originSeek dir)
  obtain ⟨y, hy, hkey, hno⟩ := h.exists_record hshows hlists x hx
  rw [← hkey]
  rw [hsplit] at hy hmeets
  rcases List.mem_append.1 hy with hy | hy
  · exact absurd (hfront y hy) hno
  · rcases List.mem_cons.1 hy with rfl | hy
    · exact hbar
    · have hbeyond := (List.pairwise_cons.1 (List.pairwise_append.1 hmeets).2.1).1 y hy
      exact Direction.not_admits_of_meets hbeyond hbar

theorem Stands.eq_nil_of_barred (h : Stands s.cursor.position all rest)
    (hs : s.table.store.Valid) (hshows : s.Shows shown)
    (hlists : Lists s.table.format s.cursor.bounds shown dir all) {front back : List Record}
    {r : Record} (hsplit : s.table.ahead dir (s.originSeek dir) = front ++ r :: back)
    (hfront : ∀ x ∈ front, s.table.judge s.reader x = .hidden)
    (hbar : dir.admits s.table.format s.cursor.bounds r.key = false) : rest = [] := by
  refine List.eq_nil_iff_forall_not_mem.2 fun x hx => ?_
  have hout := h.not_admits_of_barred hs hshows hlists hsplit hfront hbar x hx
  have hin := ((hlists.mem_iff x).1 (h.mem_of_mem hx)).2
  rw [Direction.admits_eq dir, hout] at hin
  cases hin

/-- A step stays before a conflict, goes to the next entry, or finds none left. -/
theorem result_cases (hs : s.table.store.Valid) (hshows : s.Shows shown)
    (hlists : Lists s.table.format s.cursor.bounds shown dir all)
    (h : Stands s.cursor.position all rest) :
    (∃ r ∈ s.table.store.records, s.table.judge s.reader r = .conflict ∧
      s.result dir = (.error (s.conflict r.key), s.cursor.place)) ∨
    (∃ x rest' key, rest = x :: rest' ∧ s.table.format.unpackKey x.key = .ok key ∧
      s.result dir = (.ok (some ⟨key, x.value⟩), .on x) ∧
      Stands (.positioned ⟨x.key⟩) all rest') ∨
    (rest = [] ∧ ∃ p, s.result dir = (.ok none, p)) := by
  rcases Flat.hunt_cases (s.table.judge s.reader)
    (dir.admits s.table.format s.cursor.bounds) (s.table.ahead dir (s.originSeek dir)) with
    ⟨hhunt, hhidden⟩ | ⟨front, r, back, hsplit, hfront,
      ⟨b, hhunt, hvalue, hgo⟩ | ⟨hhunt, hconflict⟩ | ⟨hhunt, hbar⟩⟩
  · exact Or.inr (Or.inr ⟨h.eq_nil_of_hidden hshows hlists hhidden, _, by
      rw [result, quarry, hhunt]⟩)
  · -- the first value ahead is that of the first entry
    have hr : r ∈ s.table.ahead dir (s.originSeek dir) := by
      rw [hsplit]
      exact List.mem_append_right front List.mem_cons_self
    obtain ⟨hstored, hacc⟩ := Flat.mem_ahead.1 hr
    obtain ⟨hreaches, hrest⟩ := h.ahead_iff hshows hlists r hstored
    have hall : ⟨r.key, b⟩ ∈ all := by
      refine (hlists.mem_iff _).2 ⟨hshows.shown_of_value hstored hvalue, ?_⟩
      rw [Direction.admits_eq dir, hgo, hreaches hacc]
      rfl
    obtain ⟨rest', rfl⟩ :=
      h.eq_cons_of_first hs hshows hlists hsplit hfront ((hrest b hall).1 hacc)
    obtain ⟨key, hkey⟩ := hshows.unpacks r hstored
    refine Or.inr (Or.inl ⟨_, rest', key, rfl, hkey, ?_, h.next⟩)
    rw [result, quarry, hhunt]
    simp only [hkey]
  · have hr : r ∈ s.table.ahead dir (s.originSeek dir) := by
      rw [hsplit]
      exact List.mem_append_right front List.mem_cons_self
    refine Or.inl ⟨r, (Flat.mem_ahead.1 hr).1, hconflict, ?_⟩
    rw [result, quarry, hhunt]
  · exact Or.inr (Or.inr ⟨h.eq_nil_of_barred hs hshows hlists hsplit hfront hbar, _, by
      rw [result, quarry, hhunt]⟩)

theorem result_fails (hshows : s.Shows shown) (dir : Direction) {e : Error}
    (he : (s.result dir).1 = .error e) :
    ∃ r ∈ s.table.store.records, s.table.judge s.reader r = .conflict ∧ e = s.conflict r.key := by
  have hmem : ∀ r, r ∈ s.table.ahead dir (s.originSeek dir) → r ∈ s.table.store.records :=
    fun r hr => (Flat.mem_ahead.1 hr).1
  rcases Flat.hunt_cases (s.table.judge s.reader)
    (dir.admits s.table.format s.cursor.bounds) (s.table.ahead dir (s.originSeek dir)) with
    ⟨hhunt, -⟩ | ⟨front, r, back, hsplit, -,
      ⟨b, hhunt, -⟩ | ⟨hhunt, hconflict⟩ | ⟨hhunt, -⟩⟩
  · rw [result, quarry, hhunt] at he
    cases he
  · have hr : r ∈ s.table.ahead dir (s.originSeek dir) := by
      rw [hsplit]
      exact List.mem_append_right front List.mem_cons_self
    obtain ⟨key, hkey⟩ := hshows.unpacks r (hmem r hr)
    rw [result, quarry, hhunt] at he
    simp only [hkey] at he
    cases he
  · have hr : r ∈ s.table.ahead dir (s.originSeek dir) := by
      rw [hsplit]
      exact List.mem_append_right front List.mem_cons_self
    rw [result, quarry, hhunt] at he
    exact ⟨r, hmem r hr, hconflict, (Except.error.inj he).symm⟩
  · rw [result, quarry, hhunt] at he
    cases he

/-- What a walk needs of its cursor and table, wherever the cursor stands. -/
structure Ready (s : Scan) (f : Format) (b : Bounds) (shown : Bytes → Bytes → Prop)
    (mayFail : Prop) : Prop where
  format : s.table.format = f
  bounds : s.cursor.bounds = b
  valid : s.table.store.Valid
  fits : s.cursor.options.releaseEvict = true → s.table.store.Fits
  unprepared : ∀ txn, s.cursor.txn = some txn → s.table.ledger.state txn ≠ .prepared
  shows : s.Shows shown
  conflicts : ∀ r ∈ s.table.store.records, s.table.judge s.reader r = .conflict → mayFail

def entry (f : Format) (h : Held) : Option Entry :=
  match f.unpackKey h.key with
  | .ok key => some ⟨key, h.value⟩
  | .error _ => none

variable {f : Format} {b : Bounds} {mayFail : Prop}

/-- A step returns the next entry, or that there is none, or fails before a conflict and stays. -/
theorem Ready.step_cases (h : s.Ready f b shown mayFail) (hlists : Lists f b shown dir all)
    (hstands : Stands s.cursor.position all rest) :
    (mayFail ∧ ∃ key t, (step dir).run s = .error (.preparedConflict key) ⟨s.cursor, t⟩) ∨
    (∃ x rest' t, rest = x :: rest' ∧ (entry f x).isSome = true ∧
      (step dir).run s = .ok (entry f x) ⟨{ s.cursor with place := .on x }, t⟩ ∧
      Stands (.positioned ⟨x.key⟩) all rest') ∨
    (rest = [] ∧ ∃ u, (step dir).run s = .ok none u) := by
  have hopen : s.isExhausted dir = false := by
    rw [isExhausted]
    rcases hstands with ⟨hp, -⟩ | ⟨done, x, hp, -⟩
    · rw [hp]
    · rw [hp]
  obtain ⟨t, -, -, hrun⟩ := step_run dir h.valid h.fits h.unprepared hopen
  have hlists' : Lists s.table.format s.cursor.bounds shown dir all := by
    rw [h.format, h.bounds]
    exact hlists
  rcases result_cases h.valid h.shows hlists' hstands with
    ⟨r, hr, hconflict, hresult⟩ | ⟨x, rest', key, hrest, hkey, hresult, hnext⟩ |
      ⟨hrest, p, hresult⟩
  · rw [hresult] at hrun
    exact Or.inl ⟨h.conflicts r hr hconflict, _, t, hrun⟩
  · rw [hresult] at hrun
    have hentry : entry f x = some ⟨key, x.value⟩ := by
      rw [entry, ← h.format, hkey]
    refine Or.inr (Or.inl ⟨x, rest', t, hrest, ?_, ?_, hnext⟩)
    · rw [hentry]
      rfl
    · rw [hentry]
      exact hrun
  · rw [hresult] at hrun
    exact Or.inr (Or.inr ⟨hrest, _, hrun⟩)

/-- Whatever position it starts from, a step fails at most before a conflict, and changes nothing of
the cursor but its place. -/
theorem Ready.step_reply (h : s.Ready f b shown mayFail) (dir : Direction) :
    ∃ p t, (∃ e, (step dir).run s = .ok e ⟨{ s.cursor with place := p }, t⟩) ∨
      (mayFail ∧ ∃ key, (step dir).run s =
        .error (.preparedConflict key) ⟨{ s.cursor with place := p }, t⟩) := by
  cases hopen : s.isExhausted dir with
  | true =>
    have hrun := step_run_exhausted (heldUp_eq_false h.unprepared) hopen
    exact ⟨s.cursor.place, s.table, Or.inl ⟨none, hrun⟩⟩
  | false =>
    obtain ⟨t, -, -, hrun⟩ := step_run dir h.valid h.fits h.unprepared hopen
    have hfails : ∀ e, (s.result dir).1 = .error e →
        mayFail ∧ ∃ key, e = .preparedConflict key := by
      intro e he
      obtain ⟨r, hr, hconflict, rfl⟩ := result_fails h.shows dir he
      exact ⟨h.conflicts r hr hconflict, _, rfl⟩
    revert hrun hfails
    obtain ⟨reply, p⟩ := s.result dir
    intro hrun hfails
    cases reply with
    | ok e => exact ⟨p, t, Or.inl ⟨e, hrun⟩⟩
    | error e =>
      obtain ⟨hmay, key, rfl⟩ := hfails e rfl
      exact ⟨p, t, Or.inr ⟨hmay, key, hrun⟩⟩

end Scan

end Keyspan
