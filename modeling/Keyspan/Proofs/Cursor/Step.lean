import Keyspan.Proofs.Cursor.Rounds

set_option autoImplicit false
set_option relaxedAutoImplicit false

namespace Keyspan

namespace Store

theorem Valid.length_records_le {s : Store} (hs : s.Valid) : s.records.length ≤ s.recordLimit := by
  have hle : ∀ pages : List Page, (∀ p ∈ pages, (p.contents s.codec).length ≤ s.pageLimit) →
      (pages.flatMap (Page.contents s.codec)).length ≤ pages.length * s.pageLimit := by
    intro pages hp
    induction pages with
    | nil => simp
    | cons p pages ih =>
      have hhead := hp p List.mem_cons_self
      have htail := ih fun q hq => hp q (List.mem_cons_of_mem p hq)
      rw [List.flatMap_cons, List.length_append, List.length_cons, Nat.succ_mul]
      omega
  exact hle s.pages hs.bounded

end Store

def Direction.positioning : Direction → Positioning
  | forward => .next
  | backward => .prev

def Position.anchor? : Position → Option Anchor
  | positioned anchor => some anchor
  | _ => none

namespace Scan

variable {s : Scan}

def seedSeek (dir : Direction) (b : Bounds) : Seek :=
  match dir.start b with
  | some bound => dir.ofBound bound
  | none => dir.outermost

def originSeek (s : Scan) (dir : Direction) : Seek :=
  match s.cursor.position with
  | .positioned anchor =>
    if dir.reaches s.table.format s.cursor.bounds anchor.key then dir.beyond anchor.key
    else seedSeek dir s.cursor.bounds
  | _ => seedSeek dir s.cursor.bounds

def quarry (s : Scan) (dir : Direction) : Except Record Catch :=
  Flat.hunt (s.table.judge s.reader) (dir.admits s.table.format s.cursor.bounds)
    (s.table.ahead dir (s.originSeek dir))

def result (s : Scan) (dir : Direction) : Except Error (Option Entry) × Place :=
  match s.quarry dir with
  | .error r => (.error (s.conflict r.key), s.cursor.place)
  | .ok (.held h) =>
    match s.table.format.unpackKey h.key with
    | .ok key => (.ok (some ⟨key, h.value⟩), .on h)
    | .error e => (.error e, s.cursor.place)
  | .ok (.barred _) => (.ok none, s.cursor.place.stop dir)
  | .ok .nothing => (.ok none, {})

theorem originSeek_of_anchor? {dir : Direction} {anchor : Anchor}
    (h : s.cursor.position.anchor? = some anchor) : s.originSeek dir =
      if dir.reaches s.table.format s.cursor.bounds anchor.key then dir.beyond anchor.key
      else seedSeek dir s.cursor.bounds := by
  rw [originSeek]
  cases hp : s.cursor.position with
  | positioned a =>
    rw [hp] at h
    obtain rfl := Option.some.inj h
    rfl
  | _ =>
    rw [hp] at h
    cases h

theorem originSeek_of_anchor?_none {dir : Direction} (h : s.cursor.position.anchor? = none) :
    s.originSeek dir = seedSeek dir s.cursor.bounds := by
  rw [originSeek]
  cases hp : s.cursor.position with
  | positioned a =>
    rw [hp] at h
    cases h
  | _ => rfl

private theorem along_seedSeek (dir : Direction) (b : Bounds) : dir.Along (seedSeek dir b) := by
  rw [seedSeek]
  split
  · exact Direction.along_ofBound dir _
  · exact Direction.along_outermost dir

theorem along_originSeek (s : Scan) (dir : Direction) : dir.Along (s.originSeek dir) := by
  rw [originSeek]
  split
  · split
    · exact Direction.along_beyond dir _
    · exact along_seedSeek dir _
  · exact along_seedSeek dir _

theorem length_ahead_le (s : Scan) (dir : Direction) (m : Seek) :
    (s.table.ahead dir m).length ≤ s.table.store.records.length := by
  have harrange : (dir.arrange s.table.store.records).length = s.table.store.records.length := by
    cases dir with
    | forward => rfl
    | backward => exact List.length_reverse
  exact Nat.le_trans (List.length_filter_le _ _) (Nat.le_of_eq harrange)

theorem length_ahead_lt (hs : s.table.store.Valid) (dir : Direction) (m : Seek) :
    (s.table.ahead dir m).length < s.huntLimit :=
  Nat.lt_succ_of_le (Nat.le_trans (length_ahead_le s dir m) hs.length_records_le)

theorem reader_eq {t : Table} (h : s.table.Alike t) : reader ⟨s.cursor, t⟩ = s.reader := by
  unfold reader
  dsimp only
  rw [h.ledger]

theorem origin_run (s : Scan) (hs : s.table.store.Valid) (dir : Direction) :
    ∃ t, s.table.Alike t ∧ t.store.Valid ∧
      (origin dir).run s = .ok (s.originSeek dir) ⟨s.cursor, t⟩ := by
  have hseed : ∃ t, s.table.Alike t ∧ t.store.Valid ∧
      (seed dir).run s = .ok (seedSeek dir s.cursor.bounds) ⟨s.cursor, t⟩ := by
    simp only [seed, EStateM.run_bind, EStateM.run_get, seedSeek]
    cases dir.start s.cursor.bounds with
    | none => exact ⟨s.table, .refl s.table, hs, rfl⟩
    | some bound =>
      let n : ScanStats := { s.table.scans with boundSeeks := s.table.scans.boundSeeks + 1 }
      exact ⟨{ s.table with scans := n }, ⟨rfl, rfl, .refl s.table.store⟩, hs, rfl⟩
  simp only [origin, EStateM.run_bind, EStateM.run_get, originSeek]
  cases s.cursor.position with
  | positioned anchor =>
    dsimp only
    split
    · exact ⟨s.table, .refl s.table, hs, rfl⟩
    · exact hseed
  | unpositioned => exact hseed
  | exhausted d last => exact hseed

def ends {α : Type} (s : Scan) (t : Table) : Except Error α × Place → EStateM.Result Error Scan α
  | (.ok a, p) => .ok a ⟨{ s.cursor with place := p }, t⟩
  | (.error e, p) => .error e ⟨{ s.cursor with place := p }, t⟩

/-- A call comes to this result and leaves the cursor in this place, whichever pages it moves. Giving up
a page that does not fit is all that may go wrong with it, and then the cursor stays as it was. -/
def Comes {α : Type} (s : Scan) (call : ScanM α) (r : Except Error α × Place) : Prop :=
  ∃ t, s.table.Alike t ∧ t.store.Valid ∧ (call.run s = s.ends t r ∨
    ((∃ e, call.run s = .error e ⟨s.cursor, t⟩) ∧ s.cursor.options.releaseEvict = true ∧
      ¬ s.table.store.Fits))

namespace Comes

variable {α β : Type} {call : ScanM α} {r : Except Error α × Place}

/-- Where pages that are given up fit, nothing goes wrong. -/
theorem run (h : s.Comes call r)
    (hfit : s.cursor.options.releaseEvict = true → s.table.store.Fits) :
    ∃ t, s.table.Alike t ∧ t.store.Valid ∧ call.run s = s.ends t r := by
  obtain ⟨t, hst, ht, hrun | ⟨-, hrelease, hno⟩⟩ := h
  · exact ⟨t, hst, ht, hrun⟩
  · exact absurd (hfit hrelease) hno

private theorem pure (hs : s.table.store.Valid) (a : α) :
    s.Comes (pure a) (.ok a, s.cursor.place) :=
  ⟨s.table, .refl s.table, hs, Or.inl rfl⟩

theorem throw (hs : s.table.store.Valid) (e : Error) :
    s.Comes (throw e : ScanM α) (.error e, s.cursor.place) :=
  ⟨s.table, .refl s.table, hs, Or.inl rfl⟩

theorem place (hs : s.table.store.Valid) (p : Place) (a : α) :
    s.Comes (Scan.place p >>= fun _ => Pure.pure a) (.ok a, p) :=
  ⟨s.table, .refl s.table, hs, Or.inl rfl⟩

theorem bind {x : ScanM β} {f : β → ScanM α} {b : β} {t : Table} (hst : s.table.Alike t)
    (hrun : x.run s = .ok b ⟨s.cursor, t⟩) (h : Comes ⟨s.cursor, t⟩ (f b) r) :
    s.Comes (x >>= f) r := by
  obtain ⟨u, htu, hu, hend⟩ := h
  refine ⟨u, hst.trans htu, hu, ?_⟩
  rw [EStateM.run_bind, hrun]
  rcases hend with hrest | ⟨hfail, hrelease, hno⟩
  · exact Or.inl hrest
  · exact Or.inr ⟨hfail, hrelease, fun hfits => hno (hst.store.fits hfits)⟩

theorem count (hs : s.table.store.Valid) (n : ScanStats → ScanStats) {f : Unit → ScanM α}
    (h : ∀ t, s.table.Alike t → t.store.Valid → Comes ⟨s.cursor, t⟩ (f ()) r) :
    s.Comes (Scan.count n >>= f) r :=
  have halike : s.table.Alike { s.table with scans := n s.table.scans } :=
    ⟨rfl, rfl, .refl s.table.store⟩
  bind halike rfl (h _ halike hs)

private theorem map (h : s.Comes call r) (g : α → β) : s.Comes (g <$> call) (r.1.map g, r.2) := by
  obtain ⟨result, p⟩ := r
  obtain ⟨t, hst, ht, hend⟩ := h
  refine ⟨t, hst, ht, ?_⟩
  rw [← bind_pure_comp, EStateM.run_bind]
  rcases hend with hrun | ⟨⟨e, hrun⟩, hno⟩
  · left
    rw [hrun]
    cases result <;> rfl
  · right
    rw [hrun]
    exact ⟨⟨e, rfl⟩, hno⟩

end Comes

def landing (s : Scan) (h : Held) : Except Error Entry × Place :=
  match s.table.format.unpackKey h.key with
  | .ok key => (.ok ⟨key, h.value⟩, .on h)
  | .error e => (.error e, s.cursor.place)

def landed {α : Type} (s : Scan) (h : Held) (reply : Entry → α) : Except Error α × Place :=
  ((s.landing h).1.map reply, (s.landing h).2)

private theorem land_comes (hs : s.table.store.Valid)
    (hm : s.cursor.options.releaseEvict = true → s.table.store.InMemory) (h : Held) :
    s.Comes (land h) (s.landing h) := by
  refine Comes.bind (.refl s.table) (EStateM.run_get s) ?_
  rw [landing]
  cases s.table.format.unpackKey h.key with
  | error e => exact .throw hs e
  | ok key =>
    dsimp only
    cases hrelease : s.cursor.options.releaseEvict with
    | false => exact .place hs (.on h) _
    | true =>
      obtain ⟨t, hst, ht, ⟨_, hrun⟩ | ⟨⟨e, hrun⟩, hno⟩⟩ :=
        Store.harmless_release h.key s.table.store hs (hm hrelease)
      · have halike : s.table.Alike { s.table with store := t } := ⟨rfl, rfl, hst⟩
        exact .bind halike (onStore_run hrun) (.place (s := ⟨s.cursor, _⟩) ht (.on h) _)
      · refine ⟨{ s.table with store := t }, ⟨rfl, rfl, hst⟩, ht,
          Or.inr ⟨⟨.ofImage e, ?_⟩, hrelease, hno⟩⟩
        rw [if_pos rfl, EStateM.run_bind, onStore_run_error hrun]

theorem land_run (hs : s.table.store.Valid)
    (hfit : s.cursor.options.releaseEvict = true → s.table.store.Fits) {h : Held} {key : Key}
    (hkey : s.table.format.unpackKey h.key = .ok key) :
    ∃ t, s.table.Alike t ∧ t.store.Valid ∧
      (land h).run s = .ok ⟨key, h.value⟩ ⟨{ s.cursor with place := .on h }, t⟩ := by
  have hland := (land_comes hs (fun hrelease => (hfit hrelease).inMemory) h).run hfit
  rw [landing, hkey] at hland
  exact hland

theorem landing_eq {t : Table} (h : s.table.Alike t) (x : Held) :
    landing ⟨s.cursor, t⟩ x = s.landing x := by
  rw [landing, landing, h.format]

theorem result_of_held {dir : Direction} {h : Held} (hq : s.quarry dir = .ok (.held h)) :
    s.result dir = s.landed h some := by
  rw [result, hq, landed, landing]
  dsimp only
  cases s.table.format.unpackKey h.key <;> rfl

/-- What a hunt comes to: a conflict fails, and anything else ends as `r` says. -/
def outcome {α : Type} (s : Scan) (r : Catch → Except Error α × Place) :
    Except Record Catch → Except Error α × Place
  | .error x => (.error (s.conflict x.key), s.cursor.place)
  | .ok found => r found

theorem hunting_comes {α : Type} (dir : Direction) (onward : Scan → Bytes → Bool)
    {f : Scan → Catch → ScanM α} (r : Catch → Except Error α × Place)
    (hs : s.table.store.Valid)
    (honward : ∀ u, s.table.Alike u → onward ⟨s.cursor, u⟩ = onward s)
    (hf : ∀ u t found, s.table.Alike u → s.table.Alike t → t.store.Valid →
      Comes ⟨s.cursor, t⟩ (f ⟨s.cursor, u⟩ found) (r found)) :
    s.Comes (origin dir >>= fun m => get >>= fun u =>
        hunt dir u.reader (onward u) u.huntLimit m >>= f u)
      (s.outcome r (Flat.hunt (s.table.judge s.reader) (onward s)
        (s.table.ahead dir (s.originSeek dir)))) := by
  obtain ⟨u, hsu, hu, horigin⟩ := origin_run s hs dir
  refine .bind hsu horigin (.bind (.refl u) (EStateM.run_get _) ?_)
  obtain ⟨t, hut, ht, hhunt⟩ := hunt_run (s := ⟨s.cursor, u⟩) dir (reader ⟨s.cursor, u⟩)
    (onward ⟨s.cursor, u⟩) (huntLimit ⟨s.cursor, u⟩) hu (along_originSeek s dir)
    (length_ahead_lt hu dir (s.originSeek dir))
  have hst : s.table.Alike t := hsu.trans hut
  rw [reader_eq hsu, honward u hsu] at hhunt
  rw [reader_eq hsu, honward u hsu]
  have hflat : Flat.hunt (u.judge s.reader) (onward s) (u.ahead dir (s.originSeek dir)) =
      Flat.hunt (s.table.judge s.reader) (onward s) (s.table.ahead dir (s.originSeek dir)) := by
    rw [hsu.judge_eq, hsu.ahead_eq]
  rw [hflat] at hhunt
  cases hq : Flat.hunt (s.table.judge s.reader) (onward s)
    (s.table.ahead dir (s.originSeek dir)) with
  | error x =>
    rw [hq] at hhunt
    refine ⟨t, hut, ht, Or.inl ?_⟩
    rw [EStateM.run_bind, hhunt]
    dsimp only
    rw [conflict_eq hsu]
    rfl
  | ok found =>
    rw [hq] at hhunt
    exact .bind hut hhunt (hf u t found hsu hst ht)

theorem landed_comes {α : Type} {t : Table} (hst : s.table.Alike t) (ht : t.store.Valid)
    (hm : s.cursor.options.releaseEvict = true → s.table.store.InMemory) (h : Held)
    (reply : Entry → α) : Comes ⟨s.cursor, t⟩ (reply <$> land h) (s.landed h reply) := by
  rw [landed, ← landing_eq hst]
  exact (land_comes (s := ⟨s.cursor, t⟩) ht
    (fun hrelease => hst.store.inMemory (hm hrelease)) h).map reply

def caught (s : Scan) (dir : Direction) : Catch → Except Error (Option Entry) × Place
  | .held h => s.landed h some
  | .barred _ => (.ok none, s.cursor.place.stop dir)
  | .nothing => (.ok none, {})

theorem result_eq_outcome (s : Scan) (dir : Direction) :
    s.result dir = s.outcome (s.caught dir) (s.quarry dir) := by
  rcases hq : s.quarry dir with x | (h | x | _)
  · rw [result, hq]
    rfl
  · exact result_of_held hq
  · rw [result, hq]
    rfl
  · rw [result, hq]
    rfl

private theorem advance_comes (dir : Direction) (hs : s.table.store.Valid)
    (hm : s.cursor.options.releaseEvict = true → s.table.store.InMemory) :
    s.Comes (advance dir) (s.result dir) := by
  rw [result_eq_outcome]
  refine hunting_comes dir (fun u => dir.admits u.table.format u.cursor.bounds) (s.caught dir) hs
    (fun u hsu => by rw [hsu.format]) fun u t found hsu hst ht => ?_
  cases found with
  | held h => exact landed_comes hst ht hm h some
  | barred x => exact .count ht _ fun v _ hv => .place hv _ _
  | nothing => exact .place ht _ _

def heldUp (s : Scan) : Bool :=
  match s.cursor.txn with
  | some txn => s.table.ledger.state txn = .prepared
  | none => false

theorem heldUp_eq_false
    (h : ∀ txn, s.cursor.txn = some txn → s.table.ledger.state txn ≠ .prepared) :
    s.heldUp = false := by
  rw [heldUp]
  cases htxn : s.cursor.txn with
  | none => rfl
  | some txn => exact decide_eq_false (h txn htxn)

theorem requireUnprepared_run (call : Positioning) : (requireUnprepared call).run s =
    if s.heldUp then .error (.preparedTransaction call) s else .ok () s := by
  simp only [requireUnprepared, EStateM.run_bind, EStateM.run_get]
  cases htxn : s.cursor.txn with
  | none =>
    have hheld : s.heldUp = false := by rw [heldUp, htxn]
    rw [hheld]
    rfl
  | some txn =>
    have hheld : s.heldUp = decide (s.table.ledger.state txn = .prepared) := by rw [heldUp, htxn]
    rw [hheld]
    dsimp only
    by_cases hprepared : s.table.ledger.state txn = .prepared
    · rw [if_pos hprepared, if_pos (decide_eq_true hprepared)]
      rfl
    · rw [if_neg hprepared, if_neg (by simpa using hprepared)]
      rfl

theorem isExhausted_iff {dir : Direction} : s.isExhausted dir = true ↔
    ∃ last, s.cursor.position = .exhausted dir last := by
  rw [isExhausted]
  cases s.cursor.position with
  | exhausted d last => simp
  | _ => simp

theorem step_run_refused {dir : Direction} (h : s.heldUp = true) :
    (step dir).run s = .error (.preparedTransaction dir.positioning) s := by
  show (requireUnprepared dir.positioning >>= _).run s = _
  rw [EStateM.run_bind, requireUnprepared_run, h]
  rfl

private theorem step_run_unprepared {dir : Direction} (h : s.heldUp = false) : (step dir).run s =
    (if s.isExhausted dir then pure none else advance dir : ScanM (Option Entry)).run s := by
  show (requireUnprepared dir.positioning >>= _).run s = _
  rw [EStateM.run_bind, requireUnprepared_run, h]
  rfl

theorem step_run_exhausted {dir : Direction} (h : s.heldUp = false)
    (hstopped : s.isExhausted dir = true) : (step dir).run s = .ok none s := by
  rw [step_run_unprepared h, hstopped]
  rfl

theorem step_run_open {dir : Direction} (h : s.heldUp = false) (hopen : s.isExhausted dir = false) :
    (step dir).run s = (advance dir).run s := by
  rw [step_run_unprepared h, hopen]
  rfl

def stepped (s : Scan) (dir : Direction) : Except Error (Option Entry) × Place :=
  if s.heldUp then (.error (.preparedTransaction dir.positioning), s.cursor.place)
  else if s.isExhausted dir then (.ok none, s.cursor.place)
  else s.result dir

theorem attempt_comes (dir : Direction) {call : ScanM (Option Entry)}
    {r : Except Error (Option Entry) × Place} (hs : s.table.store.Valid) (h : s.Comes call r) :
    s.Comes (requireUnprepared dir.positioning >>= fun _ => get >>= fun u =>
        if u.isExhausted dir then pure none else call)
      (if s.heldUp then (.error (.preparedTransaction dir.positioning), s.cursor.place)
        else if s.isExhausted dir then (.ok none, s.cursor.place)
        else r) := by
  have hrun := requireUnprepared_run (s := s) dir.positioning
  cases hheld : s.heldUp with
  | true =>
    rw [hheld] at hrun
    refine ⟨s.table, .refl s.table, hs, Or.inl ?_⟩
    rw [EStateM.run_bind, hrun]
    rfl
  | false =>
    rw [hheld] at hrun
    refine .bind (.refl s.table) hrun (.bind (.refl s.table) (EStateM.run_get s) ?_)
    cases s.isExhausted dir with
    | true => exact .pure hs none
    | false => exact h

theorem step_comes (dir : Direction) (hs : s.table.store.Valid)
    (hm : s.cursor.options.releaseEvict = true → s.table.store.InMemory) :
    s.Comes (step dir) (s.stepped dir) :=
  attempt_comes dir hs (advance_comes dir hs hm)

/-- A step of a cursor that is neither stopped in this direction nor in a prepared transaction. -/
theorem step_run (dir : Direction) (hs : s.table.store.Valid)
    (hfit : s.cursor.options.releaseEvict = true → s.table.store.Fits)
    (hprepared : ∀ txn, s.cursor.txn = some txn → s.table.ledger.state txn ≠ .prepared)
    (hopen : s.isExhausted dir = false) :
    ∃ t, s.table.Alike t ∧ t.store.Valid ∧ (step dir).run s = s.ends t (s.result dir) := by
  have hstep := (step_comes dir hs fun hrelease => (hfit hrelease).inMemory).run hfit
  rw [stepped, heldUp_eq_false hprepared, hopen] at hstep
  exact hstep

end Scan

end Keyspan
