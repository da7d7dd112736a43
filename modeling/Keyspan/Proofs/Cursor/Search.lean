import Keyspan.Proofs.Cursor.Step

set_option autoImplicit false
set_option relaxedAutoImplicit false

namespace Keyspan.Scan

variable {s : Scan} {α : Type}

/-- A call that needs a running transaction that is not prepared, and a staged key. -/
def keyed (s : Scan) (call : Positioning) (r : Bytes → Except Error α × Place) :
    Except Error α × Place :=
  if s.heldUp then (.error (.preparedTransaction call), s.cursor.place)
  else
    match s.cursor.staged with
    | none => (.error .keyNotSet, s.cursor.place)
    | some key => r key

/-- What a hunt for a record comes to, and what the call comes to where it finds none. -/
def hunted (s : Scan) (quarry : Except Record Catch) (reply : Held → Entry → α)
    (missed : Except Error α × Place) : Except Error α × Place :=
  match quarry with
  | .error r => (.error (s.conflict r.key), s.cursor.place)
  | .ok (.held h) => s.landed h (reply h)
  | .ok _ => missed

def searched (s : Scan) : Except Error (Option Entry) × Place :=
  s.keyed .search fun key =>
    if s.cursor.bounds.admits s.table.format key then
      match Flat.pick s.table.store.order s.table.store.records (.exact key) with
      | none => (.ok none, {})
      | some r =>
        match s.table.judge s.reader r with
        | .value b => s.landed ⟨r.key, b⟩ some
        | .hidden => (.ok none, {})
        | .conflict => (.error (s.conflict r.key), s.cursor.place)
    else (.ok none, {})

def quarryAbove (s : Scan) (key : Bytes) : Except Record Catch :=
  Flat.hunt (s.table.judge s.reader)
    (fun k => s.cursor.bounds.admitsForward s.table.format k &&
      hasLead s.table.format (s.leadOf key) k)
    (s.table.ahead .forward (s.nearOrigin key))

def quarryBelow (s : Scan) (key : Bytes) : Except Record Catch :=
  Flat.hunt (s.table.judge s.reader) (s.cursor.bounds.admitsBackward s.table.format)
    (s.table.ahead .backward (s.nearOriginBelow key))

def nearness (f : Format) (found key : Bytes) : Nearness :=
  match (KeyOrder.typed f).compare found key with
  | .eq => .exact
  | _ => .larger

def neared (s : Scan) : Except Error (Option (Nearness × Entry)) × Place :=
  s.keyed .searchNear fun key =>
    s.hunted (s.quarryAbove key) (fun h e => some (nearness s.table.format h.key key, e))
      (if (s.leadOf key).isSome then (.ok none, {})
      else s.hunted (s.quarryBelow key) (fun _ e => some (.smaller, e)) (.ok none, {}))

theorem along_nearOrigin (s : Scan) (key : Bytes) : Direction.forward.Along (s.nearOrigin key) := by
  rw [nearOrigin]
  split
  · split
    · trivial
    · exact Direction.along_ofBound .forward _
  · trivial

theorem along_nearOriginBelow (s : Scan) (key : Bytes) :
    Direction.backward.Along (s.nearOriginBelow key) := by
  rw [nearOriginBelow]
  split
  · split
    · trivial
    · exact Direction.along_ofBound .backward _
  · trivial

theorem keyed_comes (hs : s.table.store.Valid) (call : Positioning) {search : Bytes → ScanM α}
    {r : Bytes → Except Error α × Place} (h : ∀ key, s.Comes (search key) (r key)) :
    s.Comes (requireUnprepared call >>= fun _ => requireStaged >>= search) (s.keyed call r) := by
  have hrun := requireUnprepared_run (s := s) call
  rw [keyed]
  cases hheld : s.heldUp with
  | true =>
    rw [hheld] at hrun
    refine ⟨s.table, .refl s.table, hs, Or.inl ?_⟩
    rw [EStateM.run_bind, hrun]
    rfl
  | false =>
    rw [hheld] at hrun
    refine .bind (.refl s.table) hrun ?_
    rw [if_neg Bool.false_ne_true]
    cases hstaged : s.cursor.staged with
    | none =>
      refine ⟨s.table, .refl s.table, hs, Or.inl ?_⟩
      simp only [EStateM.run_bind, requireStaged, EStateM.run_get, hstaged]
      rfl
    | some key =>
      have hkey : requireStaged.run s = .ok key s := by
        simp only [requireStaged, EStateM.run_bind, EStateM.run_get, hstaged]
        rfl
      exact .bind (.refl s.table) hkey (h key)

theorem search_comes (hs : s.table.store.Valid)
    (hm : s.cursor.options.releaseEvict = true → s.table.store.InMemory) :
    s.Comes search s.searched := by
  refine keyed_comes hs .search fun key => .bind (.refl s.table) (EStateM.run_get s) ?_
  split
  next =>
    obtain ⟨t, hseek, hst, ht⟩ := Store.seek_run hs (.exact key)
    have halike : s.table.Alike { s.table with store := t } := ⟨rfl, rfl, hst⟩
    refine .bind halike (onStore_run hseek) ?_
    cases Flat.pick s.table.store.order s.table.store.records (.exact key) with
    | none => exact .place ht _ _
    | some r =>
      dsimp only
      rw [← Table.judge]
      cases s.table.judge s.reader r with
      | value b => exact landed_comes halike ht hm _ _
      | hidden => exact .place ht _ _
      | conflict => exact .throw ht _
  next => exact .place hs _ _

/-- A call that hunts, and lands or leaves the cursor as it was. -/
def Tries (s : Scan) (call : ScanM (Option α)) (quarry : Except Record Catch)
    (reply : Held → Entry → α) : Prop :=
  match quarry with
  | .error r => s.Comes call (.error (s.conflict r.key), s.cursor.place)
  | .ok (.held h) => s.Comes call (s.landed h fun e => some (reply h e))
  | .ok _ => ∃ t, s.table.Alike t ∧ t.store.Valid ∧ call.run s = .ok none ⟨s.cursor, t⟩

theorem Comes.bind_some {call : ScanM (Option α)} {f : Option α → ScanM (Option α)}
    {r : Except Error α × Place} (h : s.Comes call (r.1.map some, r.2))
    (hf : ∀ a, f (some a) = Pure.pure (some a)) : s.Comes (call >>= f) (r.1.map some, r.2) := by
  obtain ⟨result, p⟩ := r
  obtain ⟨t, hst, ht, hend⟩ := h
  refine ⟨t, hst, ht, ?_⟩
  rw [EStateM.run_bind]
  rcases hend with hrun | ⟨⟨e, hrun⟩, hno⟩
  · left
    rw [hrun]
    cases result with
    | ok a =>
      show (f (some a)).run _ = _
      rw [hf]
      rfl
    | error e => rfl
  · right
    rw [hrun]
    exact ⟨⟨e, rfl⟩, hno⟩

theorem Tries.orElse {call : ScanM (Option α)} {f : Option α → ScanM (Option α)}
    {quarry : Except Record Catch} {reply : Held → Entry → α}
    {missed : Except Error (Option α) × Place} (h : s.Tries call quarry reply)
    (hf : ∀ a, f (some a) = Pure.pure (some a))
    (hmissed : ∀ t, s.table.Alike t → t.store.Valid → Comes ⟨s.cursor, t⟩ (f none) missed) :
    s.Comes (call >>= f) (s.hunted quarry (fun h e => some (reply h e)) missed) := by
  have hnothing : (∃ t, s.table.Alike t ∧ t.store.Valid ∧ call.run s = .ok none ⟨s.cursor, t⟩) →
      s.Comes (call >>= f) missed := by
    rintro ⟨t, hst, ht, hrun⟩
    exact .bind hst hrun (hmissed t hst ht)
  cases quarry with
  | error r => exact Comes.bind_some (r := (.error _, _)) h hf
  | ok found =>
    cases found with
    | held x =>
      have hmap : s.landed x (fun e => some (reply x e)) =
          (((s.landing x).1.map (reply x)).map some, (s.landing x).2) := by
        rw [landed]
        cases (s.landing x).1 <;> rfl
      have hx : s.Comes call (s.landed x fun e => some (reply x e)) := h
      show s.Comes _ (s.landed x fun e => some (reply x e))
      rw [hmap] at hx ⊢
      exact Comes.bind_some (r := ((s.landing x).1.map (reply x), (s.landing x).2)) hx hf
    | barred r => exact hnothing h
    | nothing => exact hnothing h

theorem hunt_tries (hs : s.table.store.Valid)
    (hm : s.cursor.options.releaseEvict = true → s.table.store.InMemory) {dir : Direction}
    {m : Seek} (hdir : dir.Along m) {onward : Bytes → Bool} {f : Catch → ScanM (Option α)}
    {reply : Held → Entry → α} (hheld : ∀ h, f (.held h) = (fun e => some (reply h e)) <$> land h)
    (hrest : ∀ found t, (∀ h, found ≠ .held h) → s.table.Alike t → t.store.Valid →
      ∃ u, t.Alike u ∧ u.store.Valid ∧ (f found).run ⟨s.cursor, t⟩ = .ok none ⟨s.cursor, u⟩) :
    s.Tries (hunt dir s.reader onward s.huntLimit m >>= f)
      (Flat.hunt (s.table.judge s.reader) onward (s.table.ahead dir m)) reply := by
  obtain ⟨t, hst, ht, hhunt⟩ :=
    hunt_run dir s.reader onward s.huntLimit hs hdir (length_ahead_lt hs dir m)
  cases hq : Flat.hunt (s.table.judge s.reader) onward (s.table.ahead dir m) with
  | error r =>
    rw [hq] at hhunt
    refine ⟨t, hst, ht, Or.inl ?_⟩
    rw [EStateM.run_bind, hhunt]
    rfl
  | ok found =>
    rw [hq] at hhunt
    have hnothing : (∀ h, found ≠ .held h) → ∃ u, s.table.Alike u ∧ u.store.Valid ∧
        (hunt dir s.reader onward s.huntLimit m >>= f).run s = .ok none ⟨s.cursor, u⟩ := by
      intro hno
      obtain ⟨u, htu, hu, hrun⟩ := hrest found t hno hst ht
      refine ⟨u, hst.trans htu, hu, ?_⟩
      rw [EStateM.run_bind, hhunt]
      exact hrun
    cases found with
    | held h =>
      refine .bind hst hhunt ?_
      rw [hheld]
      exact landed_comes hst ht hm h _
    | barred r => exact hnothing nofun
    | nothing => exact hnothing nofun

private theorem nearAbove_tries (hs : s.table.store.Valid)
    (hm : s.cursor.options.releaseEvict = true → s.table.store.InMemory) (key : Bytes) :
    s.Tries (nearAbove key (s.leadOf key)) (s.quarryAbove key)
      fun h e => (nearness s.table.format h.key key, e) := by
  refine hunt_tries hs hm (along_nearOrigin s key) (fun h => bind_pure_comp _ _) ?_
  intro found t hno hst ht
  cases found with
  | held h => exact absurd rfl (hno h)
  | barred r =>
    dsimp only
    split
    · let n : ScanStats := { t.scans with leadStops := t.scans.leadStops + 1 }
      exact ⟨{ t with scans := n }, ⟨rfl, rfl, .refl t.store⟩, ht, rfl⟩
    · exact ⟨t, .refl t, ht, rfl⟩
  | nothing => exact ⟨t, .refl t, ht, rfl⟩

private theorem nearBelow_tries (hs : s.table.store.Valid)
    (hm : s.cursor.options.releaseEvict = true → s.table.store.InMemory) (key : Bytes) :
    s.Tries (nearBelow key) (s.quarryBelow key) fun _ e => (.smaller, e) := by
  refine hunt_tries hs hm (along_nearOriginBelow s key) (fun h => bind_pure_comp _ _) ?_
  intro found t hno hst ht
  cases found with
  | held h => exact absurd rfl (hno h)
  | barred r => exact ⟨t, .refl t, ht, rfl⟩
  | nothing => exact ⟨t, .refl t, ht, rfl⟩

theorem quarryBelow_eq {t : Table} (h : s.table.Alike t) (key : Bytes) :
    quarryBelow ⟨s.cursor, t⟩ key = s.quarryBelow key := by
  rw [quarryBelow, quarryBelow, reader_eq h, h.judge_eq, h.ahead_eq, nearOriginBelow,
    nearOriginBelow, h.format]

theorem hunted_eq {t : Table} (h : s.table.Alike t) (quarry : Except Record Catch)
    (reply : Held → Entry → α) (missed : Except Error α × Place) :
    hunted ⟨s.cursor, t⟩ quarry reply missed = s.hunted quarry reply missed := by
  rcases quarry with r | (x | r | _)
  · show (_, _) = (_, _)
    rw [conflict_eq h]
  · show landed _ x _ = s.landed x _
    rw [landed, landed, landing_eq h]
  · rfl
  · rfl

theorem searchNear_comes (hs : s.table.store.Valid)
    (hm : s.cursor.options.releaseEvict = true → s.table.store.InMemory) :
    s.Comes searchNear s.neared := by
  refine keyed_comes hs .searchNear fun key => .bind (.refl s.table) (EStateM.run_get s) ?_
  refine (nearAbove_tries hs hm key).orElse (fun _ => rfl) fun t hst ht => ?_
  dsimp only
  cases (s.leadOf key).isSome with
  | true => exact .place ht _ _
  | false =>
    have hbelow := nearBelow_tries (s := ⟨s.cursor, t⟩) ht
      (fun hrelease => hst.store.inMemory (hm hrelease)) key
    rw [quarryBelow_eq hst] at hbelow
    rw [if_neg Bool.false_ne_true, if_neg Bool.false_ne_true, ← hunted_eq hst]
    exact hbelow.orElse (fun _ => rfl) fun u _ hu => .place hu {} none

end Keyspan.Scan
