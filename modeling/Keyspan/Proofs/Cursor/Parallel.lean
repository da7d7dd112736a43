import Keyspan.Proofs.Cursor.Amend
import Keyspan.Proofs.Cursor.Search
import Keyspan.Proofs.Store.Resident

/-!
One cursor call on two scans.

If the parts of cursor calls, made on two related scans, have the same result on both and leave them
related, then so do the calls. The two may differ in how their tables page records, in what was
counted, and in whether the cursor gives up the pages behind it.
-/

set_option autoImplicit false
set_option relaxedAutoImplicit false

namespace Keyspan

structure Table.Level (t u : Table) : Prop where
  format : u.format = t.format
  ledger : u.ledger = t.ledger
  order : u.store.order = t.store.order
  records : u.store.records = t.store.records
  left : t.store.Valid
  right : u.store.Valid

def CursorOptions.releasing (o : CursorOptions) (b : Bool) : CursorOptions :=
  { o with releaseEvict := b }

def Cursor.releasing (c : Cursor) (b : Bool) : Cursor :=
  { c with options := c.options.releasing b }

private theorem Cursor.amend_releasing (c : Cursor) (a : Amendment) (b : Bool) :
    (c.releasing b).amend a = (c.amend a).releasing b := by
  cases a <;> rfl

namespace Scan

theorem resident_of_hunt {dir : Direction} {reader : Transaction} {onward : Bytes → Bool} {n : Nat}
    {m : Seek} {s u : Scan} {h : Held} (hs : s.table.store.Valid)
    (hrun : (hunt dir reader onward n m).run s = .ok (.held h) u) :
    u.table.store.Resident h.key := by
  induction n generalizing s m with
  | zero => cases hrun
  | succ n ih =>
    obtain ⟨t, hseek, -, ht⟩ := Store.seek_run hs m
    simp only [hunt, EStateM.run_bind, onStore_run hseek] at hrun
    cases hfound : Flat.pick s.table.store.order s.table.store.records m with
    | none =>
      rw [hfound] at hrun
      cases hrun
    | some r =>
      rw [hfound] at hrun hseek
      dsimp only at hrun
      split at hrun
      · simp only [EStateM.run_bind, EStateM.run_get] at hrun
        split at hrun
        · cases hrun
          exact Store.resident_of_seek hs hseek
        · exact ih (s := ⟨s.cursor, { s.table with store := t, scans := s.table.scans.skip dir }⟩)
            ht hrun
        · cases hrun
      · cases hrun

private theorem resident_of_seek {m : Seek} {r : Record} {s u : Scan} (hs : s.table.store.Valid)
    (hrun : (onStore (Store.seek m)).run s = .ok (some r) u) : u.table.store.Resident r.key := by
  obtain ⟨t, hseek, -, -⟩ := Store.seek_run hs m
  rw [onStore_run hseek] at hrun
  obtain ⟨hfound, rfl⟩ := EStateM.Result.ok.inj hrun
  rw [hfound] at hseek
  exact Store.resident_of_seek hs hseek

/-- A relation between scans that the parts of cursor calls keep, each with the same result for both. A
page is given up only once a seek has brought it into memory. -/
structure Parallel (R : Scan → Scan → Prop) : Prop where
  cursors : ∀ {s t}, R s t → t.cursor.releasing false = s.cursor.releasing false
  tables : ∀ {s t}, R s t → s.table.Level t.table
  change : ∀ {s t}, R s t → ∀ g : Cursor → Cursor,
    (∀ c b, g (c.releasing b) = (g c).releasing b) → R ⟨g s.cursor, s.table⟩ ⟨g t.cursor, t.table⟩
  count : ∀ f : ScanStats → ScanStats, Agree R (count f) (count f)
  seek : ∀ m : Seek, Agree R (onStore (Store.seek m)) (onStore (Store.seek m))
  land : ∀ {s t}, R s t → ∀ h : Held, s.table.store.Resident h.key → t.table.store.Resident h.key →
    Matching R ((land h).run s) ((land h).run t)

namespace Parallel

variable {R : Scan → Scan → Prop} {s t : Scan} (hR : Parallel R)
include hR

section Related

variable (h : R s t)
include h

private theorem bounds_eq : t.cursor.bounds = s.cursor.bounds :=
  congrArg (·.bounds) (hR.cursors h)

private theorem place_eq : t.cursor.place = s.cursor.place :=
  congrArg (·.place) (hR.cursors h)

private theorem staged_eq : t.cursor.staged = s.cursor.staged :=
  congrArg (·.staged) (hR.cursors h)

private theorem txn_eq : t.cursor.txn = s.cursor.txn :=
  congrArg (·.txn) (hR.cursors h)

private theorem prefixSearch_eq : t.cursor.options.prefixSearch = s.cursor.options.prefixSearch :=
  congrArg (·.options.prefixSearch) (hR.cursors h)

private theorem reader_eq : t.reader = s.reader := by
  rw [reader, reader, hR.txn_eq h, (hR.tables h).ledger]

private theorem conflict_eq (key : Bytes) : t.conflict key = s.conflict key := by
  rw [conflict, conflict, (hR.tables h).format]

private theorem ahead_eq (dir : Direction) (m : Seek) :
    t.table.ahead dir m = s.table.ahead dir m := by
  rw [Table.ahead, Table.ahead, (hR.tables h).order, (hR.tables h).records]

end Related

private theorem agree_place (p : Place) : Agree R (place p) (place p) :=
  fun _ _ h => .ok (hR.change h (fun c => { c with place := p }) fun _ _ => rfl)

private theorem agree_requireUnprepared (call : Positioning) :
    Agree R (requireUnprepared call) (requireUnprepared call) := by
  refine .get_bind fun s t h => ?_
  rw [hR.txn_eq h]
  cases s.cursor.txn with
  | none => exact .ok h
  | some txn =>
    refine .ite ?_ (fun _ => .error h) fun _ => .ok h
    rw [(hR.tables h).ledger]

private theorem agree_requireStaged : Agree R requireStaged requireStaged := by
  refine .get_bind fun s t h => ?_
  rw [hR.staged_eq h]
  cases s.cursor.staged with
  | none => exact .error h
  | some key => exact .ok h

theorem hunt (h : R s t) (dir : Direction) (reader : Transaction) (onward : Bytes → Bool) {n k : Nat}
    {m : Seek} (hm : dir.Along m) (hn : (s.table.ahead dir m).length < n)
    (hk : (s.table.ahead dir m).length < k) :
    Matching R ((Scan.hunt dir reader onward n m).run s)
      ((Scan.hunt dir reader onward k m).run t) := by
  induction n generalizing s t m k with
  | zero => exact absurd hn (Nat.not_lt_zero _)
  | succ n ih =>
    obtain ⟨k, rfl⟩ := Nat.exists_eq_succ_of_ne_zero (Nat.ne_of_gt (Nat.zero_lt_of_lt hk))
    obtain ⟨w, hseek, hsw, -⟩ := Store.seek_run (hR.tables h).left m
    refine (hR.seek m s t h).bind fun found u v hrun _ huv => ?_
    rw [onStore_run hseek, Flat.pick_eq_head? hm, ← Table.ahead] at hrun
    obtain ⟨rfl, rfl⟩ := EStateM.Result.ok.inj hrun
    cases hahead : s.table.ahead dir m with
    | nil => exact .ok huv
    | cons r rest =>
      rw [hahead, List.length_cons] at hn hk
      refine .ite Iff.rfl (fun _ => ?_) fun _ => .ok huv
      simp only [EStateM.run_bind, EStateM.run_get, (hR.tables huv).ledger]
      cases s.table.ledger.resolve reader r.versions with
      | value x => exact .ok huv
      | conflict =>
        dsimp only
        rw [hR.conflict_eq huv]
        exact .error huv
      | hidden =>
        -- the next seek goes on from scans that have counted one more
        refine Matching.bind (hR.count _ _ v huv) fun _ u' v' hrun _ huv' => ?_
        have hsu' : s.table.Alike u'.table := by
          cases hrun
          exact ⟨rfl, rfl, hsw⟩
        have hrest : u'.table.ahead dir (dir.beyond r.key) = rest := by
          rw [hsu'.ahead_eq]
          exact Flat.ahead_beyond (hR.tables h).left.ascending hm hahead
        refine ih huv' (Direction.along_beyond dir r.key) ?_ ?_
        · rw [hrest]
          omega
        · rw [hrest]
          omega

theorem hunt_from (h : R s t) {dir : Direction} {m m' : Seek} (hm : dir.Along m) (hm' : m' = m)
    {onward onward' : Bytes → Bool} (honward : onward' = onward) :
    Matching R ((Scan.hunt dir s.reader onward s.huntLimit m).run s)
      ((Scan.hunt dir t.reader onward' t.huntLimit m').run t) := by
  rw [hR.reader_eq h, hm', honward]
  refine hR.hunt h dir s.reader onward hm (length_ahead_lt (hR.tables h).left dir m) ?_
  rw [← hR.ahead_eq h]
  exact length_ahead_lt (hR.tables h).right dir m

private theorem agree_seed (dir : Direction) : Agree R (seed dir) (seed dir) := by
  refine .get_bind fun s t h => ?_
  rw [hR.bounds_eq h]
  cases dir.start s.cursor.bounds with
  | none => exact .ok h
  | some bound => exact (hR.count _).bind (fun _ => .pure _) s t h

private theorem agree_origin (dir : Direction) : Agree R (origin dir) (origin dir) := by
  refine .get_bind fun s t h => ?_
  rw [Cursor.position, Cursor.position, hR.place_eq h]
  cases s.cursor.place.position with
  | positioned anchor =>
    refine .ite ?_ (fun _ => .ok h) fun _ => hR.agree_seed dir s t h
    rw [(hR.tables h).format, hR.bounds_eq h]
  | unpositioned => exact hR.agree_seed dir s t h
  | exhausted d last => exact hR.agree_seed dir s t h

private theorem agree_advance (dir : Direction) : Agree R (advance dir) (advance dir) := by
  intro s t h
  refine Matching.bind (hR.agree_origin dir s t h) fun m u v hrun _ huv => ?_
  have hm : dir.Along m := by
    obtain ⟨_, -, -, horigin⟩ := origin_run s (hR.tables h).left dir
    rw [horigin] at hrun
    cases hrun
    exact along_originSeek s dir
  refine Agree.get_bind (fun u v huv => ?_) u v huv
  have honward : dir.admits v.table.format v.cursor.bounds =
      dir.admits u.table.format u.cursor.bounds := by
    rw [(hR.tables huv).format, hR.bounds_eq huv]
  refine (hR.hunt_from huv hm rfl honward).bind fun found w x hw hx hwx => ?_
  cases found with
  | held h =>
    have hland := hR.land hwx h (resident_of_hunt (hR.tables huv).left hw)
      (resident_of_hunt (hR.tables huv).right hx)
    exact hland.map some
  | barred r =>
    rw [hR.place_eq huv]
    exact ((hR.count _).bind fun _ => (hR.agree_place _).bind fun _ => .pure none) w x hwx
  | nothing => exact ((hR.agree_place _).bind fun _ => .pure none) w x hwx

private theorem agree_step (dir : Direction) : Agree R (step dir) (step dir) := by
  refine (hR.agree_requireUnprepared _).bind fun _ => .get_bind fun s t h => ?_
  refine .ite ?_ (fun _ => .ok h) fun _ => hR.agree_advance dir s t h
  rw [isExhausted, isExhausted, Cursor.position, Cursor.position, hR.place_eq h]

private theorem agree_miss {α : Type} : Agree R (miss : ScanM (Option α)) (miss : ScanM (Option α)) :=
  (hR.agree_place _).bind fun _ => .pure none

private theorem agree_search : Agree R search search := by
  refine (hR.agree_requireUnprepared _).bind fun _ => hR.agree_requireStaged.bind fun key =>
    .get_bind fun s t h => ?_
  refine .ite ?_ (fun _ => ?_) fun _ => hR.agree_miss s t h
  · rw [hR.bounds_eq h, (hR.tables h).format]
  · refine (hR.seek (.exact key) s t h).bind fun found u v hu hv huv => ?_
    cases found with
    | none => exact hR.agree_miss u v huv
    | some r =>
      dsimp only
      rw [(hR.tables h).ledger, hR.reader_eq h]
      cases s.table.ledger.resolve s.reader r.versions with
      | value x =>
        have hland := hR.land huv ⟨r.key, x⟩ (resident_of_seek (hR.tables h).left hu)
          (resident_of_seek (hR.tables h).right hv)
        exact hland.map some
      | hidden => exact hR.agree_miss u v huv
      | conflict =>
        dsimp only
        rw [hR.conflict_eq h]
        exact .error huv

private theorem agree_nearAbove (key : Bytes) (lead : Option Bytes) :
    Agree R (nearAbove key lead) (nearAbove key lead) := by
  refine .get_bind fun s t h => ?_
  have horigin : t.nearOrigin key = s.nearOrigin key := by
    rw [nearOrigin, nearOrigin, hR.bounds_eq h, (hR.tables h).format]
  dsimp only
  rw [hR.bounds_eq h, (hR.tables h).format]
  refine (hR.hunt_from h (along_nearOrigin s key) horigin rfl).bind fun found u v hu hv huv => ?_
  cases found with
  | held x =>
    have hland := hR.land huv x (resident_of_hunt (hR.tables h).left hu)
      (resident_of_hunt (hR.tables h).right hv)
    exact hland.bind fun _ u v _ _ huv => .ok huv
  | barred r =>
    refine .ite Iff.rfl (fun _ => ?_) fun _ => .ok huv
    exact (hR.count _).bind (fun _ => .pure none) u v huv
  | nothing => exact .ok huv

private theorem agree_nearBelow (key : Bytes) : Agree R (nearBelow key) (nearBelow key) := by
  refine .get_bind fun s t h => ?_
  have horigin : t.nearOriginBelow key = s.nearOriginBelow key := by
    rw [nearOriginBelow, nearOriginBelow, hR.bounds_eq h, (hR.tables h).format]
  dsimp only
  rw [hR.bounds_eq h, (hR.tables h).format]
  refine (hR.hunt_from h (along_nearOriginBelow s key) horigin rfl).bind
    fun found u v hu hv huv => ?_
  cases found with
  | held x =>
    have hland := hR.land huv x (resident_of_hunt (hR.tables h).left hu)
      (resident_of_hunt (hR.tables h).right hv)
    exact hland.bind fun _ u v _ _ huv => .ok huv
  | barred r => exact .ok huv
  | nothing => exact .ok huv

private theorem agree_searchNear : Agree R searchNear searchNear := by
  refine (hR.agree_requireUnprepared _).bind fun _ => hR.agree_requireStaged.bind fun key =>
    .get_bind fun s t h => ?_
  have hlead : t.leadOf key = s.leadOf key := by
    rw [leadOf, leadOf, hR.prefixSearch_eq h, (hR.tables h).format]
  dsimp only
  rw [hlead]
  refine (hR.agree_nearAbove key (s.leadOf key) s t h).bind fun found u v _ _ huv => ?_
  cases found with
  | some found => exact .ok huv
  | none =>
    refine .ite Iff.rfl (fun _ => hR.agree_miss u v huv) fun _ => ?_
    refine (hR.agree_nearBelow key u v huv).bind fun found w x _ _ hwx => ?_
    cases found with
    | some found => exact .ok hwx
    | none => exact hR.agree_miss w x hwx

theorem walk (h : R s t) (dir : Direction) (n : Nat) :
    (Scan.walk dir n t).1 = (Scan.walk dir n s).1 ∧
      R (Scan.walk dir n s).2 (Scan.walk dir n t).2 := by
  induction n generalizing s t with
  | zero => exact ⟨rfl, h⟩
  | succ n ih =>
    have hstep := hR.agree_step dir s t h
    rw [Scan.walk, Scan.walk]
    generalize (step dir).run s = r at hstep
    generalize (step dir).run t = q at hstep
    cases hstep with
    | error huv => exact ⟨rfl, huv⟩
    | @ok found u v huv =>
      cases found with
      | none => exact ⟨rfl, huv⟩
      | some e =>
        obtain ⟨hsteps, hrest⟩ := ih huv
        exact ⟨congrArg (.ok (some e) :: ·) hsteps, hrest⟩

end Parallel

end Scan

namespace CursorCall

def Paired (R : Scan → Scan → Prop) (r q : Reply × Scan) : Prop :=
  q.1 = r.1 ∧ R r.2 q.2

variable {R : Scan → Scan → Prop} {s t : Scan}

private theorem paired_answer (h : R s t) {α : Type} {call : ScanM α} (hcall : Agree R call call)
    (reply : α → Reply) : Paired R (answer reply call s) (answer reply call t) := by
  have hrun := hcall s t h
  rw [answer, answer]
  generalize call.run s = r at hrun
  generalize call.run t = q at hrun
  cases hrun with
  | ok huv => exact ⟨rfl, huv⟩
  | error huv => exact ⟨rfl, huv⟩

section Parallel

variable (hR : Scan.Parallel R) (h : R s t)
include hR h

theorem paired_modify {edit : Cursor → Cursor}
    (hedit : ∀ c b, edit (c.releasing b) = (edit c).releasing b) :
    Paired R (change s (modify edit)) (change t (modify edit)) :=
  ⟨rfl, hR.change h edit hedit⟩

private theorem paired_bounding {call : CursorCall} (hcall : call.isBounding = true) :
    Paired R (run s call) (run t call) := by
  obtain ⟨r, hr⟩ := exists_amendment hcall s
  have hr' : call.amendment? t.table.format t.cursor.bounds t.cursor.staged = some r := by
    rw [(hR.tables h).format, hR.bounds_eq h, hR.staged_eq h]
    exact hr
  rw [run_of_amendment? hr, run_of_amendment? hr']
  cases r with
  | ok a => exact ⟨rfl, hR.change h (·.amend a) fun c b => c.amend_releasing a b⟩
  | error e => exact ⟨rfl, h⟩

/-- Each call on a cursor replies the same on both. -/
theorem paired_run (call : CursorCall) : Paired R (run s call) (run t call) := by
  cases call with
  | setTxn txn => exact paired_modify hR h fun _ _ => rfl
  | get =>
    refine ⟨?_, h⟩
    show Reply.holding (t.cursor.key t.table.format) t.cursor.value = .holding _ _
    rw [Cursor.key, Cursor.value, Cursor.current, hR.place_eq h, (hR.tables h).format]
    rfl
  | setKey key => exact paired_bounding hR h rfl
  | configureBound config => exact paired_bounding hR h rfl
  | applyBound request => exact paired_bounding hR h rfl
  | setBound side key inclusive => exact paired_bounding hR h rfl
  | clearBound side => exact paired_bounding hR h rfl
  | reset => exact paired_modify hR h fun _ _ => rfl
  | next => exact paired_answer h (hR.agree_step .forward) _
  | prev => exact paired_answer h (hR.agree_step .backward) _
  | search => exact paired_answer h hR.agree_search _
  | searchNear => exact paired_answer h hR.agree_searchNear _
  | walk dir n =>
    obtain ⟨hsteps, hrest⟩ := hR.walk h dir n
    exact ⟨congrArg Reply.walked hsteps, hrest⟩

end Parallel

end CursorCall

end Keyspan
