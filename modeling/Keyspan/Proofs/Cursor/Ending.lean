import Keyspan.Proofs.Cursor.Nearest
import Keyspan.Proofs.Cursor.Tally

/-!
That the loops of steps and near searches end.

A path of a call is a way through it that makes seek after seek without any limit to their number. Each
seek of a hunt but the first goes on past the record that the one before handed out, so the records that
are handed out are ever further on, in the order of the store and whatever their keys are. There are no
more of them than lie ahead, so there is a path to the end, and the call comes to what the path comes to.
The two hunts of a near search have different records ahead of them.
-/

set_option autoImplicit false
set_option relaxedAutoImplicit false

namespace Keyspan.Scan

variable {s : Scan} {dir : Direction} {m : Seek} {α : Type}

/-- The seeks that a hunt made on a table: each but the first is past the record that the one before
handed out, what they hand out is ever further on, and there is one for each record at most and one. -/
structure Trail (dir : Direction) (t : Table) (made : List (Seek × Option Record)) : Prop where
  beyond : made.IsChain fun a b => ∃ x, a.2 = some x ∧ b.1 = dir.beyond x.key
  further : (made.filterMap Prod.snd).Pairwise fun x y => dir.Meets t.store.order x.key y.key
  few : made.length ≤ t.store.records.length + 1

def handouts (made : List (Seek × Option Record)) : Nat :=
  (made.filterMap Prod.snd).length

/-- Round after round to the end, and from there what is made of the catch. -/
inductive Hunted (dir : Direction) (reader : Transaction) (onward : Bytes → Bool)
    (conclude : Catch → ScanM α) (m : Seek) (s : Scan) :
    List (Seek × Option Record) → EStateM.Result Error Scan α → Prop
  | failed {made : List (Seek × Option Record)} {e : Error} {t : Scan}
    (rounds : Rounds dir reader onward m s made (.error e t)) :
    Hunted dir reader onward conclude m s made (.error e t)
  | caught {made : List (Seek × Option Record)} {c : Catch} {t : Scan}
    (rounds : Rounds dir reader onward m s made (.ok c t)) :
    Hunted dir reader onward conclude m s made ((conclude c).run t)

/-- What a near search does with what it has caught among the keys that are not smaller. -/
def concludeAbove (s : Scan) (key : Bytes) : Catch → ScanM (Option (Nearness × Entry))
  | .held h => (fun e => some (nearness s.table.format h.key key, e)) <$> land h
  | .barred r => do
    if s.cursor.bounds.admitsForward s.table.format r.key then
      count fun n => { n with leadStops := n.leadStops + 1 }
    pure none
  | .nothing => pure none

/-- What a near search does with what it has caught among the keys that are smaller. -/
def concludeBelow : Catch → ScanM (Option (Nearness × Entry))
  | .held h => (fun e => some (.smaller, e)) <$> land h
  | _ => pure none

def HuntsAbove (s : Scan) (key : Bytes) : List (Seek × Option Record) →
    EStateM.Result Error Scan (Option (Nearness × Entry)) → Prop :=
  Hunted .forward s.reader
    (fun k => s.cursor.bounds.admitsForward s.table.format k &&
      hasLead s.table.format (s.leadOf key) k)
    (s.concludeAbove key) (s.nearOrigin key) s

def HuntsBelow (s : Scan) (key : Bytes) : List (Seek × Option Record) →
    EStateM.Result Error Scan (Option (Nearness × Entry)) → Prop :=
  Hunted .backward s.reader (s.cursor.bounds.admitsBackward s.table.format) concludeBelow
    (s.nearOriginBelow key) s

/-- The paths of a step, with the seeks on the way. -/
inductive StepPath (dir : Direction) (s : Scan) :
    List (Seek × Option Record) → EStateM.Result Error Scan (Option Entry) → Prop
  | refused (prepared : s.heldUp = true) :
    StepPath dir s [] (.error (.preparedTransaction dir.positioning) s)
  | stopped (unprepared : s.heldUp = false) (exhausted : s.isExhausted dir = true) :
    StepPath dir s [] (.ok none s)
  | hunts {m : Seek} {u : Scan} {made : List (Seek × Option Record)}
    {r : EStateM.Result Error Scan (Option Entry)} (unprepared : s.heldUp = false)
    (going : s.isExhausted dir = false) (start : (origin dir).run s = .ok m u)
    (hunt : Hunted dir u.reader (dir.admits u.table.format u.cursor.bounds) (u.conclude dir) m u
      made r) : StepPath dir s made r

/-- The paths of a near search, with the seeks of its first hunt and of its second. -/
inductive NearPath (s : Scan) : List (Seek × Option Record) → List (Seek × Option Record) →
    EStateM.Result Error Scan (Option (Nearness × Entry)) → Prop
  | refused (prepared : s.heldUp = true) :
    NearPath s [] [] (.error (.preparedTransaction .searchNear) s)
  | unstaged (unprepared : s.heldUp = false) (nothing : s.cursor.staged = none) :
    NearPath s [] [] (.error .keyNotSet s)
  | above {key : Bytes} {made : List (Seek × Option Record)}
    {r : EStateM.Result Error Scan (Option (Nearness × Entry))} (unprepared : s.heldUp = false)
    (staged : s.cursor.staged = some key) (first : s.HuntsAbove key made r)
    (settled : ∀ t, r ≠ .ok none t) : NearPath s made [] r
  | confined {key : Bytes} {made : List (Seek × Option Record)} {t : Scan}
    (unprepared : s.heldUp = false) (staged : s.cursor.staged = some key)
    (first : s.HuntsAbove key made (.ok none t)) (lead : (s.leadOf key).isSome = true) :
    NearPath s made [] (miss.run t)
  | below {key : Bytes} {made made' : List (Seek × Option Record)} {t : Scan}
    {r : EStateM.Result Error Scan (Option (Nearness × Entry))} (unprepared : s.heldUp = false)
    (staged : s.cursor.staged = some key) (first : s.HuntsAbove key made (.ok none t))
    (lead : (s.leadOf key).isSome = false) (second : t.HuntsBelow key made' r)
    (settled : ∀ u, r ≠ .ok none u) : NearPath s made made' r
  | missed {key : Bytes} {made made' : List (Seek × Option Record)} {t u : Scan}
    (unprepared : s.heldUp = false) (staged : s.cursor.staged = some key)
    (first : s.HuntsAbove key made (.ok none t)) (lead : (s.leadOf key).isSome = false)
    (second : t.HuntsBelow key made' (.ok none u)) : NearPath s made made' (miss.run u)

/-- A step comes to this on a path with these seeks, and has counted what they handed out. -/
structure StepEnds (s : Scan) (dir : Direction) (made : List (Seek × Option Record))
    (r : EStateM.Result Error Scan (Option Entry)) : Prop where
  path : StepPath dir s made r
  run : (step dir).run s = r
  trail : Trail dir s.table made
  visited : (finalState r).table.store.visited = s.table.store.visited + handouts made

/-- A near search comes to this on a path with these seeks, and has counted what they handed out. Both
hunts together make one seek for each record at most and two. -/
structure NearEnds (s : Scan) (above below : List (Seek × Option Record))
    (r : EStateM.Result Error Scan (Option (Nearness × Entry))) : Prop where
  path : NearPath s above below r
  run : searchNear.run s = r
  trailAbove : Trail .forward s.table above
  trailBelow : Trail .backward s.table below
  few : above.length + below.length ≤ s.table.store.records.length + 2
  visited : (finalState r).table.store.visited =
    s.table.store.visited + handouts above + handouts below

theorem length_ahead_near_le (hordered : s.table.store.order = .typed s.table.format) (key : Bytes) :
    (s.table.ahead .forward (s.nearOrigin key)).length +
        (s.table.ahead .backward (s.nearOriginBelow key)).length ≤ s.table.store.records.length := by
  let above (r : Record) : Bool := (s.nearOrigin key).accepts s.table.store.order r
  let below (r : Record) : Bool := (s.nearOriginBelow key).accepts s.table.store.order r
  have hapart : ∀ r ∈ s.table.store.records, below r = true → (!above r) = true := by
    intro r _ hbelow
    simp only [above, below, hordered, accepts_nearOrigin, accepts_nearOriginBelow,
      Bool.and_eq_true, decide_eq_true_iff] at hbelow ⊢
    simp [hbelow.1]
  have hright : (s.table.ahead .backward (s.nearOriginBelow key)).length =
      s.table.store.records.countP below := by
    rw [Table.ahead, Flat.ahead, ← List.countP_eq_length_filter]
    exact List.countP_reverse
  have hleft : (s.table.ahead .forward (s.nearOrigin key)).length =
      s.table.store.records.countP above := List.countP_eq_length_filter.symm
  have hsum := List.length_eq_countP_add_countP above (l := s.table.store.records)
  have hmono := List.countP_mono_left hapart
  rw [hleft, hright]
  simp only [Bool.not_eq_true, Bool.decide_eq_false] at hsum
  omega

theorem nearAbove_nothing {key : Bytes} {lead : Option Bytes} {u : Scan} (hs : s.table.store.Valid)
    (h : (nearAbove key lead).run s = .ok none u) :
    u.cursor = s.cursor ∧ s.table.Alike u.table ∧ u.table.store.Valid := by
  obtain ⟨t, hst, ht, hhunt⟩ := hunt_run .forward s.reader
    (fun k => s.cursor.bounds.admitsForward s.table.format k && hasLead s.table.format lead k)
    s.huntLimit hs (along_nearOrigin s key) (length_ahead_lt hs .forward _)
  simp only [nearAbove, EStateM.run_bind, EStateM.run_get, hhunt] at h
  cases hfound : Flat.hunt (s.table.judge s.reader)
      (fun k => s.cursor.bounds.admitsForward s.table.format k && hasLead s.table.format lead k)
      (s.table.ahead .forward (s.nearOrigin key)) with
  | error r =>
    rw [hfound] at h
    cases h
  | ok found =>
    rw [hfound] at h
    cases found with
    | held x =>
      -- what is found is landed on, and that returns it or fails
      simp only [EStateM.run_bind] at h
      cases hland : (land x).run ⟨s.cursor, t⟩ with
      | ok e v =>
        rw [hland] at h
        cases h
      | error e v =>
        rw [hland] at h
        cases h
    | barred r =>
      dsimp only at h
      split at h
      · cases h
        exact ⟨rfl, ⟨hst.format, hst.ledger, hst.store⟩, ht⟩
      · cases h
        exact ⟨rfl, hst, ht⟩
    | nothing =>
      cases h
      exact ⟨rfl, hst, ht⟩

private theorem trail_nil (dir : Direction) (t : Table) : Trail dir t [] :=
  ⟨.nil, .nil, Nat.zero_le _⟩

private theorem Rounds.head_eq {reader : Transaction} {onward : Bytes → Bool}
    {made : List (Seek × Option Record)} {r : EStateM.Result Error Scan Catch}
    (h : Rounds dir reader onward m s made r) : made.head?.map Prod.fst = some m := by
  cases h <;> rfl

private theorem Rounds.isChain {reader : Transaction} {onward : Bytes → Bool}
    {made : List (Seek × Option Record)} {r : EStateM.Result Error Scan Catch}
    (h : Rounds dir reader onward m s made r) :
    made.IsChain fun a b => ∃ x, a.2 = some x ∧ b.1 = dir.beyond x.key := by
  induction h with
  | last h => exact .singleton _
  | @more m x s s' made r h rest ih =>
    have hhead := rest.head_eq
    cases made with
    | nil => cases hhead
    | cons b made => exact .cons_cons ⟨x, rfl, Option.some.inj hhead⟩ ih

theorem Hunted.run_eq {reader : Transaction} {onward : Bytes → Bool} {conclude : Catch → ScanM α}
    {made : List (Seek × Option Record)} {r : EStateM.Result Error Scan α}
    (h : Hunted dir reader onward conclude m s made r) {n : Nat} (hn : made.length ≤ n) :
    (hunt dir reader onward n m >>= conclude).run s = r := by
  cases h with
  | failed rounds => rw [EStateM.run_bind, rounds.hunt_eq hn]
  | caught rounds => rw [EStateM.run_bind, rounds.hunt_eq hn]

theorem exists_hunted (hs : s.table.store.Valid) (hm : dir.Along m) (onward : Bytes → Bool)
    {conclude : Catch → ScanM α}
    (hconclude : ∀ c, Keeps (fun s : Scan => s.table.store.visited) (conclude c)) :
    ∃ made r, Hunted dir s.reader onward conclude m s made r ∧ made.length ≤ s.huntLimit ∧
      Trail dir s.table made ∧ made.length ≤ (s.table.ahead dir m).length + 1 ∧
      (finalState r).table.store.visited = s.table.store.visited + handouts made := by
  obtain ⟨t, made, -, -, hrounds, hseeks, hhanded, hvisited, -⟩ :=
    exists_rounds dir s.reader onward hs hm rfl
  have hpassed := (Flat.passed_prefix (s.table.judge s.reader) onward (s.table.ahead dir m)).length_le
  have hfew : made.length ≤ (s.table.ahead dir m).length + 1 := by
    rw [length_of_seeks hseeks]
    exact Nat.succ_le_succ hpassed
  have hwithin : made.length ≤ s.huntLimit := Nat.le_trans hfew (length_ahead_lt hs dir m)
  have htrail : Trail dir s.table made := by
    refine ⟨hrounds.isChain, ?_, Nat.le_trans hfew (Nat.succ_le_succ (length_ahead_le s dir m))⟩
    rw [hhanded, Flat.handed]
    exact (Flat.meets_ahead hs.ascending m).sublist (List.take_sublist _ _)
  rw [← hhanded] at hvisited
  cases hhunt : Flat.hunt (s.table.judge s.reader) onward (s.table.ahead dir m) with
  | error r =>
    rw [hhunt] at hrounds
    exact ⟨made, _, .failed hrounds, hwithin, htrail, hfew, hvisited⟩
  | ok c =>
    rw [hhunt] at hrounds
    exact ⟨made, _, .caught hrounds, hwithin, htrail, hfew,
      (hconclude c ⟨s.cursor, t⟩).trans hvisited⟩

section Visited

private theorem keeps_visited_land (h : Held) :
    Keeps (fun s : Scan => s.table.store.visited) (land h) :=
  fun s => (Prod.ext_iff.1 (Prod.ext_iff.1 (keeps_land h s)).2).2

private theorem keeps_visited_conclude (s : Scan) (dir : Direction) (c : Catch) :
    Keeps (fun s : Scan => s.table.store.visited) (s.conclude dir c) := by
  cases c with
  | held h =>
    rw [conclude, ← bind_pure_comp]
    exact (keeps_visited_land h).bind fun e => .pure (some e)
  | barred r => exact fun _ => rfl
  | nothing => exact fun _ => rfl

private theorem keeps_visited_concludeAbove (s : Scan) (key : Bytes) (c : Catch) :
    Keeps (fun s : Scan => s.table.store.visited) (s.concludeAbove key c) := by
  cases c with
  | held h =>
    rw [concludeAbove, ← bind_pure_comp]
    exact (keeps_visited_land h).bind fun e => .pure _
  | barred r =>
    rw [concludeAbove]
    split
    · exact fun _ => rfl
    · exact .pure none
  | nothing => exact .pure none

private theorem keeps_visited_concludeBelow (c : Catch) :
    Keeps (fun s : Scan => s.table.store.visited) (concludeBelow c) := by
  cases c with
  | held h =>
    rw [concludeBelow, ← bind_pure_comp]
    exact (keeps_visited_land h).bind fun e => .pure _
  | barred r => exact .pure none
  | nothing => exact .pure none

end Visited

section Parts

private theorem advance_run_eq {u : Scan} (horigin : (origin dir).run s = .ok m u) :
    (advance dir).run s = (hunt dir u.reader (dir.admits u.table.format u.cursor.bounds)
      u.huntLimit m >>= u.conclude dir).run u := by
  simp only [advance, EStateM.run_bind, horigin, EStateM.run_get]
  cases (hunt dir u.reader (dir.admits u.table.format u.cursor.bounds) u.huntLimit m).run u with
  | error e t => rfl
  | ok c t => cases c <;> rfl

private theorem nearAbove_run_eq (s : Scan) (key : Bytes) : (nearAbove key (s.leadOf key)).run s =
    (hunt .forward s.reader (fun k => s.cursor.bounds.admitsForward s.table.format k &&
        hasLead s.table.format (s.leadOf key) k) s.huntLimit (s.nearOrigin key) >>=
      s.concludeAbove key).run s := by
  simp only [nearAbove, EStateM.run_bind, EStateM.run_get]
  cases (hunt .forward s.reader (fun k => s.cursor.bounds.admitsForward s.table.format k &&
      hasLead s.table.format (s.leadOf key) k) s.huntLimit (s.nearOrigin key)).run s with
  | error e t => rfl
  | ok c t =>
    cases c with
    | held h =>
      simp only [concludeAbove, ← bind_pure_comp, EStateM.run_bind]
      rfl
    | barred r => rfl
    | nothing => rfl

private theorem nearBelow_run_eq (s : Scan) (key : Bytes) : (nearBelow key).run s =
    (hunt .backward s.reader (s.cursor.bounds.admitsBackward s.table.format) s.huntLimit
      (s.nearOriginBelow key) >>= concludeBelow).run s := by
  simp only [nearBelow, EStateM.run_bind, EStateM.run_get]
  cases (hunt .backward s.reader (s.cursor.bounds.admitsBackward s.table.format) s.huntLimit
      (s.nearOriginBelow key)).run s with
  | error e t => rfl
  | ok c t =>
    cases c with
    | held h =>
      simp only [concludeBelow, ← bind_pure_comp, EStateM.run_bind]
    | barred r => rfl
    | nothing => rfl

def firstOf (x y : ScanM (Option α)) : ScanM (Option α) := do
  match ← x with
  | some found => pure (some found)
  | none => y

private theorem firstOf_run_settled {x y : ScanM (Option α)}
    {r : EStateM.Result Error Scan (Option α)}
    (hx : x.run s = r) (settled : ∀ t, r ≠ .ok none t) : (firstOf x y).run s = r := by
  rw [firstOf, EStateM.run_bind, hx]
  cases r with
  | error e t => rfl
  | ok found t =>
    cases found with
    | some found => rfl
    | none => exact absurd rfl (settled t)

private theorem firstOf_run_nothing {x y : ScanM (Option α)} {t : Scan} (hx : x.run s = .ok none t) :
    (firstOf x y).run s = y.run t := by
  rw [firstOf, EStateM.run_bind, hx]

private theorem searchNear_run_refused (h : s.heldUp = true) :
    searchNear.run s = .error (.preparedTransaction .searchNear) s := by
  rw [searchNear, EStateM.run_bind, requireUnprepared_run, h]
  rfl

private theorem searchNear_run_unstaged (h : s.heldUp = false) (hstaged : s.cursor.staged = none) :
    searchNear.run s = .error .keyNotSet s := by
  have hkey : requireStaged.run s = .error .keyNotSet s := by
    simp only [requireStaged, EStateM.run_bind, EStateM.run_get, hstaged]
    rfl
  rw [searchNear, EStateM.run_bind, requireUnprepared_run, h, if_neg Bool.false_ne_true]
  dsimp only
  rw [EStateM.run_bind, hkey]

private theorem searchNear_run_staged {key : Bytes} (h : s.heldUp = false)
    (hstaged : s.cursor.staged = some key) : searchNear.run s =
      (firstOf (nearAbove key (s.leadOf key))
        (if (s.leadOf key).isSome then miss else firstOf (nearBelow key) miss)).run s := by
  have hkey : requireStaged.run s = .ok key s := by
    simp only [requireStaged, EStateM.run_bind, EStateM.run_get, hstaged]
    rfl
  rw [searchNear, EStateM.run_bind, requireUnprepared_run, h, if_neg Bool.false_ne_true]
  dsimp only
  rw [EStateM.run_bind, hkey]
  simp only [firstOf, EStateM.run_bind, EStateM.run_get]
  cases (nearAbove key (s.leadOf key)).run s with
  | error e t => rfl
  | ok found t =>
    cases found with
    | some found => rfl
    | none =>
      dsimp only
      split
      · rfl
      · simp only [EStateM.run_bind]
        cases (nearBelow key).run t with
        | error e u => rfl
        | ok found u => cases found <;> rfl

end Parts

theorem StepPath.run_eq {made : List (Seek × Option Record)}
    {r : EStateM.Result Error Scan (Option Entry)} (h : StepPath dir s made r)
    (hn : made.length ≤ s.huntLimit) : (step dir).run s = r := by
  cases h with
  | refused prepared => exact step_run_refused prepared
  | stopped unprepared exhausted => exact step_run_exhausted unprepared exhausted
  | @hunts m u made r unprepared going start hunt =>
    have hu : u.huntLimit = s.huntLimit := by
      obtain ⟨-, rfl⟩ := EStateM.Result.ok.inj (start.symm.trans (origin_counted s dir))
      rfl
    rw [step_run_open unprepared going, advance_run_eq start]
    exact hunt.run_eq (hu ▸ hn)

private theorem HuntsAbove.run_eq {key : Bytes} {made : List (Seek × Option Record)}
    {r : EStateM.Result Error Scan (Option (Nearness × Entry))} (h : s.HuntsAbove key made r)
    (hn : made.length ≤ s.huntLimit) : (nearAbove key (s.leadOf key)).run s = r :=
  (nearAbove_run_eq s key).trans (Hunted.run_eq h hn)

private theorem HuntsBelow.run_eq {key : Bytes} {made : List (Seek × Option Record)}
    {r : EStateM.Result Error Scan (Option (Nearness × Entry))} (h : s.HuntsBelow key made r)
    (hn : made.length ≤ s.huntLimit) : (nearBelow key).run s = r :=
  (nearBelow_run_eq s key).trans (Hunted.run_eq h hn)

private theorem huntLimit_eq {t : Scan} (h : s.table.Alike t.table) : t.huntLimit = s.huntLimit := by
  rw [huntLimit, huntLimit, Store.recordLimit, Store.recordLimit, h.store.length_pages,
    h.store.pageLimit_eq]

theorem NearPath.run_eq {above below : List (Seek × Option Record)}
    {r : EStateM.Result Error Scan (Option (Nearness × Entry))} (h : NearPath s above below r)
    (hs : s.table.store.Valid) (habove : above.length ≤ s.huntLimit)
    (hbelow : below.length ≤ s.huntLimit) : searchNear.run s = r := by
  cases h with
  | refused prepared => exact searchNear_run_refused prepared
  | unstaged unprepared nothing => exact searchNear_run_unstaged unprepared nothing
  | above unprepared staged first settled =>
    rw [searchNear_run_staged unprepared staged]
    exact firstOf_run_settled (first.run_eq habove) settled
  | confined unprepared staged first lead =>
    rw [searchNear_run_staged unprepared staged, firstOf_run_nothing (first.run_eq habove),
      if_pos lead]
  | below unprepared staged first lead second settled =>
    have hrun := first.run_eq habove
    have hlimit := huntLimit_eq (nearAbove_nothing hs hrun).2.1
    rw [searchNear_run_staged unprepared staged, firstOf_run_nothing hrun,
      if_neg (by simp [lead])]
    exact firstOf_run_settled (second.run_eq (hlimit ▸ hbelow)) settled
  | missed unprepared staged first lead second =>
    have hrun := first.run_eq habove
    have hlimit := huntLimit_eq (nearAbove_nothing hs hrun).2.1
    rw [searchNear_run_staged unprepared staged, firstOf_run_nothing hrun,
      if_neg (by simp [lead]), firstOf_run_nothing (second.run_eq (hlimit ▸ hbelow))]

private theorem Trail.of_alike {t u : Table} {made : List (Seek × Option Record)}
    (h : Trail dir u made)
    (htu : t.Alike u) : Trail dir t made where
  beyond := h.beyond
  further := htu.store.order ▸ h.further
  few := htu.store.records_eq ▸ h.few

/-- There is always a path through a step. -/
theorem exists_stepEnds (hs : s.table.store.Valid) (dir : Direction) :
    ∃ made r, s.StepEnds dir made r := by
  cases hheld : s.heldUp with
  | true => exact ⟨[], _, .refused hheld, step_run_refused hheld, trail_nil dir s.table, rfl⟩
  | false =>
    cases hex : s.isExhausted dir with
    | true =>
      exact ⟨[], _, .stopped hheld hex, step_run_exhausted hheld hex, trail_nil dir s.table, rfl⟩
    | false =>
      -- the hunt starts from a scan that differs in what it counted
      let u : Scan := s.seeding dir (s.cursor.startsAtBound dir s.table.format).toNat
      have hsu : s.table.Alike u.table := ⟨rfl, rfl, .refl s.table.store⟩
      obtain ⟨made, r, hhunted, hwithin, htrail, -, hvisited⟩ := exists_hunted (s := u) hs
        (along_originSeek s dir) (dir.admits s.table.format s.cursor.bounds)
        (keeps_visited_conclude u dir)
      have hpath : StepPath dir s made r := .hunts hheld hex (origin_counted s dir) hhunted
      exact ⟨made, r, hpath, hpath.run_eq hwithin, htrail.of_alike hsu, hvisited⟩

theorem exists_huntsBelow (hs : s.table.store.Valid)
    (hordered : s.table.store.order = .typed s.table.format) {key : Bytes}
    {above : List (Seek × Option Record)} {t : Scan}
    (habove : (nearAbove key (s.leadOf key)).run s = .ok none t)
    (hfew : above.length ≤ (s.table.ahead .forward (s.nearOrigin key)).length + 1) :
    ∃ below r, t.HuntsBelow key below r ∧ below.length ≤ s.huntLimit ∧
      Trail .backward s.table below ∧
      above.length + below.length ≤ s.table.store.records.length + 2 ∧
      (finalState r).table.store.visited = t.table.store.visited + handouts below := by
  obtain ⟨hcursor, hst, ht⟩ := nearAbove_nothing hs habove
  obtain ⟨below, r, hsecond, hwithin, htrail, hfew', hvisited⟩ := exists_hunted ht
    (along_nearOriginBelow t key) (t.cursor.bounds.admitsBackward t.table.format)
    keeps_visited_concludeBelow
  have horigin : t.nearOriginBelow key = s.nearOriginBelow key := by
    rw [nearOriginBelow, nearOriginBelow, hcursor, hst.format]
  rw [horigin, hst.ahead_eq] at hfew'
  have hboth := length_ahead_near_le hordered key
  exact ⟨below, r, hsecond, huntLimit_eq hst ▸ hwithin, htrail.of_alike hst, by omega, hvisited⟩

theorem exists_nearEnds (hs : s.table.store.Valid)
    (hordered : s.table.store.order = .typed s.table.format) :
    ∃ above below r, s.NearEnds above below r := by
  -- the hunts that are not made
  have hnone : Trail .backward s.table [] := trail_nil _ _
  have hzero : ([] : List (Seek × Option Record)).length ≤ s.huntLimit := Nat.zero_le _
  cases hheld : s.heldUp with
  | true =>
    exact ⟨[], [], _, .refused hheld, searchNear_run_refused hheld, trail_nil _ _, hnone,
      Nat.zero_le _, rfl⟩
  | false =>
    cases hstaged : s.cursor.staged with
    | none =>
      exact ⟨[], [], _, .unstaged hheld hstaged, searchNear_run_unstaged hheld hstaged,
        trail_nil _ _, hnone, Nat.zero_le _, rfl⟩
    | some key =>
      obtain ⟨above, r, hfirst, hwithin, htrail, hfew, hvisited⟩ := exists_hunted hs
        (along_nearOrigin s key) (fun k => s.cursor.bounds.admitsForward s.table.format k &&
          hasLead s.table.format (s.leadOf key) k) (keeps_visited_concludeAbove s key)
      by_cases hsettled : ∀ t, r ≠ .ok none t
      · have hpath : NearPath s above [] r := .above hheld hstaged hfirst hsettled
        exact ⟨above, [], r, hpath, hpath.run_eq hs hwithin hzero, htrail, hnone,
          Nat.le_succ_of_le htrail.few, hvisited⟩
      · obtain ⟨t, rfl⟩ : ∃ t, r = .ok none t := by simpa using hsettled
        cases hlead : (s.leadOf key).isSome with
        | true =>
          have hpath : NearPath s above [] _ := .confined hheld hstaged hfirst hlead
          exact ⟨above, [], _, hpath, hpath.run_eq hs hwithin hzero, htrail, hnone,
            Nat.le_succ_of_le htrail.few, hvisited⟩
        | false =>
          obtain ⟨below, r', hsecond, hwithin', htrail', hboth, hvisited'⟩ :=
            exists_huntsBelow hs hordered (HuntsAbove.run_eq hfirst hwithin) hfew
          rw [show t.table.store.visited = _ from hvisited] at hvisited'
          by_cases hsettled' : ∀ u, r' ≠ .ok none u
          · have hpath : NearPath s above below r' :=
              .below hheld hstaged hfirst hlead hsecond hsettled'
            exact ⟨above, below, r', hpath, hpath.run_eq hs hwithin hwithin', htrail, htrail', hboth,
              hvisited'⟩
          · obtain ⟨u, rfl⟩ : ∃ u, r' = .ok none u := by simpa using hsettled'
            have hpath : NearPath s above below _ := .missed hheld hstaged hfirst hlead hsecond
            exact ⟨above, below, _, hpath, hpath.run_eq hs hwithin hwithin', htrail, htrail', hboth,
              hvisited'⟩

end Keyspan.Scan
