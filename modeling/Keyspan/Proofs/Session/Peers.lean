import Keyspan.Proofs.Cursor.Parallel
import Keyspan.Proofs.Session.Paging
import Keyspan.Proofs.Table.Write

/-!
Sessions that differ in nothing but what was counted, where pages are, and in some of their cursors.

Every call but those that tell of counters or pages, and those on the cursors that differ, replies the
same in both and keeps them so: a cursor call because its parts do the same on both, a write because it
appends the same to both.
-/

set_option autoImplicit false
set_option relaxedAutoImplicit false

namespace Keyspan

/-- Valid tables that differ in nothing but what was counted and where pages are. -/
structure Table.Peers (t u : Table) : Prop where
  alike : t.Alike u
  left : t.store.Valid
  right : u.store.Valid
  nextCursor : u.nextCursor = t.nextCursor

namespace Table.Peers

variable {t u v w : Table}

private theorem refl (ht : t.store.Valid) : t.Peers t := ⟨.refl t, ht, ht, rfl⟩

theorem move (h : t.Peers u) (htv : t.Alike v) (hv : v.store.Valid)
    (hnext : v.nextCursor = t.nextCursor) (huw : u.Alike w) (hw : w.store.Valid)
    (hnext' : w.nextCursor = u.nextCursor) : v.Peers w where
  alike := htv.symm.trans (h.alike.trans huw)
  left := hv
  right := hw
  nextCursor := hnext'.trans (h.nextCursor.trans hnext.symm)

private theorem append (h : t.Peers u) (key : Bytes) (v : Version) :
    ∃ s s', (Store.append key v).run t.store = .ok () s ∧
      (Store.append key v).run u.store = .ok () s' ∧
      Peers { t with store := s } { u with store := s' } := by
  obtain ⟨s, s', hs, hs', halike⟩ := Store.append_alike h.alike.store h.left h.right key v
  obtain ⟨r, hr, -, -, -, hvalid⟩ := Store.append_run h.left key v
  obtain ⟨r', hr', -, -, -, hvalid'⟩ := Store.append_run h.right key v
  rw [hs] at hr
  rw [hs'] at hr'
  cases hr
  cases hr'
  exact ⟨s, s', hs, hs', ⟨h.alike.format, h.alike.ledger, halike⟩, hvalid, hvalid', h.nextCursor⟩

end Table.Peers

private theorem Table.writable_peers : Table.Writable Table.Peers where
  format h := h.alike.format
  ledger h := h.alike.ledger
  setLedger h _ := ⟨⟨h.alike.format, rfl, h.alike.store⟩, h.left, h.right, h.nextCursor⟩
  append key v := by
    intro t u h
    obtain ⟨s, s', hs, hs', hpeers⟩ := h.append key v
    show Matching _ (Table.onStore _ t) (Table.onStore _ u)
    rw [Table.onStore, Table.onStore, hs, hs']
    exact .ok hpeers

def Call.cursor? : Call → Option Nat
  | closeCursor i => some i
  | setTxn i _ => some i
  | cursor i _ => some i
  | _ => none

def Call.isWithin (on : Nat → Bool) (call : Call) : Bool :=
  call.cursor?.all on

def Call.isReport : Call → Bool
  | stats => true
  | store (.append _ _) => false
  | store (.seek _) => false
  | store _ => true
  | _ => false

namespace Scan

theorem keeps_nextCursor : Entire fun _ call => Keeps (fun s : Scan => s.table.nextCursor) call where
  toCompositional := Keeps.compositional _
  throw := .throw
  count _ _ := rfl
  seek _ := nextCursor_onStore _
  place _ _ := rfl
  release _ := nextCursor_onStore _
where
  nextCursor_onStore {α : Type} (call : StoreM α) :
      Keeps (fun s : Scan => s.table.nextCursor) (onStore call) := by
    intro s
    show (finalState (onStore call s)).table.nextCursor = _
    simp only [onStore, Table.onStore, EStateM.run]
    cases call s.table.store <;> rfl

end Scan

section Keeps

variable {α β : Type} {part : Scan → β}

theorem Scan.keeps_walk {dir : Direction} (h : Keeps part (Scan.step dir)) (n : Nat) (s : Scan) :
    part (Scan.walk dir n s).2 = part s := by
  induction n generalizing s with
  | zero => rfl
  | succ n ih =>
    have hstep := h s
    rw [Scan.walk]
    cases hrun : (Scan.step dir).run s with
    | error e u =>
      rw [hrun] at hstep
      exact hstep
    | ok found u =>
      rw [hrun] at hstep
      cases found with
      | none => exact hstep
      | some e => exact (ih u).trans hstep

theorem CursorCall.keeps_answer {reply : α → Reply} {call : ScanM α} (h : Keeps part call)
    (s : Scan) : part (answer reply call s).2 = part s := by
  have hs := h s
  rw [answer]
  cases hrun : call.run s with
  | ok a u =>
    rw [hrun] at hs
    exact hs
  | error e u =>
    rw [hrun] at hs
    exact hs

/-- A call leaves alone what its parts do, if that is not about the cursor. -/
theorem CursorCall.keeps_run (h : Scan.Entire fun _ call => Keeps part call)
    (hcursor : ∀ (s : Scan) (c : Cursor), part { s with cursor := c } = part s)
    (call : CursorCall) (s : Scan) : part (call.run s).2 = part s := by
  have hchange : ∀ edit, part (change s edit).2 = part s := by
    intro edit
    rw [change]
    split <;> exact hcursor s _
  cases call with
  | next => exact keeps_answer (h.step .forward) s
  | prev => exact keeps_answer (h.step .backward) s
  | search => exact keeps_answer h.search s
  | searchNear => exact keeps_answer h.searchNear s
  | walk dir n => exact Scan.keeps_walk (h.step dir) n s
  | setTxn txn => exact hchange _
  | setKey key => exact hchange _
  | get => rfl
  | configureBound config => exact hchange _
  | applyBound request => exact hchange _
  | setBound side key inclusive => exact hchange _
  | clearBound side => exact hchange _
  | reset => exact hchange _

end Keeps

theorem CursorCall.nextCursor_run (call : CursorCall) (s : Scan) :
    (call.run s).2.table.nextCursor = s.table.nextCursor :=
  keeps_run Scan.keeps_nextCursor (fun _ _ => rfl) call s

namespace Scan

/-- One cursor on tables that differ in nothing but what was counted and where pages are. Memory holds
the payload of every page. -/
structure Abreast (s t : Scan) : Prop where
  cursor : t.cursor = s.cursor
  tables : s.table.Peers t.table
  memory : s.table.store.InMemory

private theorem Abreast.move {s t : Scan} (h : s.Abreast t) {c : Cursor} {u v : Table}
    (hu : s.table.Alike u) (hvalid : u.store.Valid) (hnext : u.nextCursor = s.table.nextCursor)
    (hv : t.table.Alike v) (hvalid' : v.store.Valid) (hnext' : v.nextCursor = t.table.nextCursor) :
    Abreast ⟨c, u⟩ ⟨c, v⟩ :=
  ⟨rfl, h.tables.move hu hvalid hnext hv hvalid' hnext', hu.store.inMemory h.memory⟩

theorem Abreast.land {s t : Scan} (h : s.Abreast t) (x : Held)
    (hs : s.table.store.Resident x.key) (ht : t.table.store.Resident x.key) :
    Matching Abreast ((Scan.land x).run s) ((Scan.land x).run t) := by
  obtain ⟨c, t₁⟩ := s
  obtain ⟨d, t₂⟩ := t
  obtain rfl : d = c := h.cursor
  have hformat : t₂.format = t₁.format := h.tables.alike.format
  simp only [Scan.land, EStateM.run_bind, EStateM.run_get, hformat]
  cases t₁.format.unpackKey x.key with
  | error e => exact .error h
  | ok key =>
    dsimp only
    cases d.options.releaseEvict with
    | false => exact .ok ⟨rfl, h.tables, h.memory⟩
    | true =>
      have hrelease := Store.release_matching h.tables.alike.store h.tables.left h.tables.right
        h.memory hs ht
      rw [if_pos rfl, EStateM.run_bind, EStateM.run_bind]
      generalize hr : (Store.release x.key).run t₁.store = r at hrelease
      generalize hq : (Store.release x.key).run t₂.store = q at hrelease
      cases hrelease with
      | @ok _ u v hend =>
        obtain ⟨hsu, hu, htv, hv⟩ := hend
        rw [onStore_run (s := ⟨d, t₁⟩) hr, onStore_run (s := ⟨d, t₂⟩) hq]
        exact .ok (h.move ⟨rfl, rfl, hsu⟩ hu rfl ⟨rfl, rfl, htv⟩ hv rfl)
      | @error _ u v hend =>
        obtain ⟨hsu, hu, htv, hv⟩ := hend
        rw [onStore_run_error (s := ⟨d, t₁⟩) hr, onStore_run_error (s := ⟨d, t₂⟩) hq]
        exact .error (h.move ⟨rfl, rfl, hsu⟩ hu rfl ⟨rfl, rfl, htv⟩ hv rfl)

private theorem parallel_abreast : Parallel Abreast where
  cursors h := congrArg (·.releasing false) h.cursor
  tables h := ⟨h.tables.alike.format, h.tables.alike.ledger, h.tables.alike.store.order,
    h.tables.alike.store.records_eq, h.tables.left, h.tables.right⟩
  change h g _ := ⟨congrArg g h.cursor, h.tables, h.memory⟩
  count f := by
    rintro ⟨c, t⟩ ⟨d, u⟩ h
    obtain rfl : d = c := h.cursor
    exact .ok (h.move ⟨rfl, rfl, .refl _⟩ h.tables.left rfl ⟨rfl, rfl, .refl _⟩ h.tables.right rfl)
  seek m := by
    rintro ⟨c, t⟩ ⟨d, u⟩ h
    obtain rfl : d = c := h.cursor
    obtain ⟨v, hv, htv, hvalid⟩ := Store.seek_run h.tables.left m
    obtain ⟨w, hw, huw, hvalid'⟩ := Store.seek_run h.tables.right m
    rw [h.tables.alike.store.order, h.tables.alike.store.records_eq] at hw
    rw [onStore_run (s := ⟨d, t⟩) hv, onStore_run (s := ⟨d, u⟩) hw]
    exact .ok (h.move ⟨rfl, rfl, htv⟩ hvalid rfl ⟨rfl, rfl, huw⟩ hvalid' rfl)
  land h x := h.land x

end Scan

namespace Session

theorem onCursor_of_some {s : Session} {i : Nat} {c : Cursor} (hc : s.cursors[i]? = some c)
    (call : CursorCall) :
    s.onCursor i call = ((call.run ⟨c, s.table⟩).1,
      { s with
        table := (call.run ⟨c, s.table⟩).2.table
        cursors := s.cursors.set i (call.run ⟨c, s.table⟩).2.cursor }) := by
  rw [onCursor, hc]

/-- Sessions that differ in nothing but what was counted, where pages are, and in cursors other than
those in `on`. -/
structure Peers (on : Nat → Prop) (s t : Session) : Prop where
  table : s.table.Peers t.table
  txns : t.txns = s.txns
  opened : t.cursors.length = s.cursors.length
  cursors : ∀ i, on i → t.cursors[i]? = s.cursors[i]?

namespace Peers

variable {on : Nat → Prop} {s t : Session}

theorem refl (hs : s.table.store.Valid) : s.Peers on s := ⟨.refl hs, rfl, rfl, fun _ _ => rfl⟩

private theorem txn?_eq (h : s.Peers on t) (txn : Option Nat) : t.txn? txn = s.txn? txn := by
  cases txn with
  | none => rfl
  | some i => rw [txn?, txn?, h.txns]

private theorem onCursor (h : s.Peers on t) (hm : s.table.store.InMemory) {i : Nat} (hi : on i)
    (call : CursorCall) :
    (t.onCursor i call).1 = (s.onCursor i call).1 ∧
      (s.onCursor i call).2.Peers on (t.onCursor i call).2 := by
  have hcursor := h.cursors i hi
  cases hc : s.cursors[i]? with
  | none =>
    have hc' : t.cursors[i]? = none := hcursor.trans hc
    rw [Session.onCursor, Session.onCursor, hc, hc']
    exact ⟨rfl, h⟩
  | some c =>
    have hc' : t.cursors[i]? = some c := hcursor.trans hc
    have habreast : Scan.Abreast ⟨c, s.table⟩ ⟨c, t.table⟩ := ⟨rfl, h.table, hm⟩
    obtain ⟨hreply, hcursors, htables, -⟩ :=
      CursorCall.paired_run Scan.parallel_abreast habreast call
    rw [onCursor_of_some hc, onCursor_of_some hc']
    refine ⟨hreply, htables, h.txns, ?_, fun j hj => ?_⟩
    · simp only [List.length_set, h.opened]
    · simp only [List.getElem?_set, h.opened, hcursors, h.cursors j hj]

theorem pass (h : s.Peers on t) (hm : s.table.store.InMemory) {i : Nat} (hi : ¬ on i)
    (call : CursorCall) : (s.onCursor i call).2.Peers on t := by
  cases hc : s.cursors[i]? with
  | none =>
    rw [Session.onCursor, hc]
    exact h
  | some c =>
    obtain ⟨halike, hvalid⟩ := call.run_alike (s := ⟨c, s.table⟩) h.table.left hm
    rw [onCursor_of_some hc]
    refine ⟨?_, h.txns, by rw [List.length_set, h.opened], fun j hj => ?_⟩
    · exact h.table.move halike hvalid (call.nextCursor_run ⟨c, s.table⟩) (.refl _) h.table.right rfl
    · have hij : i ≠ j := fun hij => hi (hij ▸ hj)
      rw [List.getElem?_set_ne hij, h.cursors j hj]

private theorem write (h : s.Peers on t) (txn : Option Nat) (key : Key) (value : Option Bytes) :
    (t.write txn key value).1 = (s.write txn key value).1 ∧
      (s.write txn key value).2.Peers on (t.write txn key value).2 := by
  rw [Session.write, Session.write, h.txn?_eq]
  cases s.txn? txn with
  | none => exact ⟨rfl, h⟩
  | some txn =>
    have hwrite := Table.writable_peers.write txn key value s.table t.table h.table
    dsimp only
    generalize (Table.write txn key value).run s.table = r at hwrite
    generalize (Table.write txn key value).run t.table = q at hwrite
    cases hwrite with
    | ok htables => exact ⟨rfl, htables, h.txns, h.opened, h.cursors⟩
    | error htables => exact ⟨rfl, htables, h.txns, h.opened, h.cursors⟩

theorem store (h : s.Peers on t) (hm : s.table.store.InMemory) (call : StoreCall) :
    ((Call.store call).isReport = false →
        (t.run (.store call)).1 = (s.run (.store call)).1) ∧
      (s.run (.store call)).2.Peers on (t.run (.store call)).2 := by
  cases hcall : call.appended? with
  | some a =>
    obtain ⟨key, v⟩ := a
    obtain rfl := StoreCall.eq_append hcall
    obtain ⟨u, w, hu, hw, hpeers⟩ := h.table.append key v
    have hrun : ∀ r : Session, ∀ x, (Store.append key v).run r.table.store = .ok () x →
        r.run (.store (.append key v)) = (.done, { r with table.store := x }) := by
      intro r x hx
      simp only [Session.run, StoreCall.run, StoreCall.answer, hx]
    rw [hrun s u hu, hrun t w hw]
    exact ⟨fun _ => rfl, hpeers, h.txns, h.opened, h.cursors⟩
  | none =>
    obtain ⟨hsu, hu, -⟩ := Store.run_alike h.table.left hm hcall
    obtain ⟨htw, hw, -⟩ :=
      Store.run_alike h.table.right (h.table.alike.store.inMemory hm) hcall
    refine ⟨fun hreport => ?_, ?_, h.txns, h.opened, h.cursors⟩
    · cases call with
      | append key v => cases hcall
      | seek m =>
        have hseek := (Store.run_seek h.table.left m).1
        have hseek' := (Store.run_seek h.table.right m).1
        rw [h.table.alike.store.order, h.table.alike.store.records_eq] at hseek'
        exact hseek'.trans hseek.symm
      | _ => cases hreport
    · exact h.table.move ⟨rfl, rfl, hsu⟩ hu rfl ⟨rfl, rfl, htw⟩ hw rfl

/-- A call that is on none of the cursors that may differ keeps peers, and replies the same in both
unless it tells of pages or counters. -/
theorem run (h : s.Peers on t) (hm : s.table.store.InMemory) {call : Call}
    (hcall : ∀ i, call.cursor? = some i → on i) :
    (call.isReport = false → (t.run call).1 = (s.run call).1) ∧
      (s.run call).2.Peers on (t.run call).2 := by
  cases call with
  | txn call =>
    have hdesk : (⟨t.table.ledger, t.txns⟩ : Desk) = ⟨s.table.ledger, s.txns⟩ := by
      rw [h.table.alike.ledger, h.txns]
    refine ⟨fun _ => congrArg (fun d => (call.run d).1) hdesk, ?_,
      congrArg (fun d => (call.run d).2.opened) hdesk, h.opened, h.cursors⟩
    exact ⟨⟨h.table.alike.format, congrArg (fun d => (call.run d).2.ledger) hdesk,
      h.table.alike.store⟩, h.table.left, h.table.right, h.table.nextCursor⟩
  | store call => exact h.store hm call
  | insert txn key value => exact (h.write txn key (some value)).imp_left fun hr _ => hr
  | remove txn key => exact (h.write txn key none).imp_left fun hr _ => hr
  | stats => exact ⟨nofun, h⟩
  | openCursor options =>
    refine ⟨fun _ => congrArg Reply.opened h.table.nextCursor, ?_, h.txns, ?_, fun i hi => ?_⟩
    · exact ⟨⟨h.table.alike.format, h.table.alike.ledger, h.table.alike.store⟩, h.table.left,
        h.table.right, congrArg (· + 1) h.table.nextCursor⟩
    · show (t.cursors ++ [_]).length = (s.cursors ++ [_]).length
      rw [List.length_append, List.length_append, h.opened]
      rfl
    · show (t.cursors ++ [_])[i]? = (s.cursors ++ [_])[i]?
      rw [List.getElem?_append, List.getElem?_append, h.opened, h.cursors i hi, h.table.nextCursor]
  | closeCursor i => exact (h.onCursor hm (hcall i rfl) .reset).imp_left fun hr _ => hr
  | setTxn i txn =>
    rw [Session.run, Session.run, h.txn?_eq]
    cases s.txn? txn with
    | none => exact ⟨fun _ => rfl, h⟩
    | some txn => exact (h.onCursor hm (hcall i rfl) (.setTxn txn)).imp_left fun hr _ => hr
  | cursor i call => exact (h.onCursor hm (hcall i rfl) call).imp_left fun hr _ => hr

theorem skip (h : s.Peers on t) (hm : s.table.store.InMemory) {call : Call} {i : Nat}
    (hcall : call.cursor? = some i) (hi : ¬ on i) : (s.run call).2.Peers on t := by
  cases call with
  | closeCursor j =>
    obtain rfl := Option.some.inj hcall
    exact h.pass hm hi .reset
  | setTxn j txn =>
    obtain rfl := Option.some.inj hcall
    rw [Session.run]
    cases s.txn? txn with
    | none => exact h
    | some txn => exact h.pass hm hi (.setTxn txn)
  | cursor j call =>
    obtain rfl := Option.some.inj hcall
    exact h.pass hm hi call
  | _ => cases hcall

/-- Two runs of which one leaves out the calls on the cursors that may differ: the replies to the others
are the same unless they tell of pages or counters, and the sessions are peers again. -/
theorem runs {stays : Nat → Bool} (h : s.Peers (fun i => stays i = true) t) {calls : List Call}
    (hm : ∀ n < calls.length, (s.after (calls.take n)).table.store.InMemory) :
    t.repliesTo (fun call => !call.isReport) (calls.filter (Call.isWithin stays)) =
        s.repliesTo (fun call => call.isWithin stays && !call.isReport) calls ∧
      (s.after calls).Peers (fun i => stays i = true)
        (t.after (calls.filter (Call.isWithin stays))) := by
  induction calls generalizing s t with
  | nil => exact ⟨rfl, h⟩
  | cons call calls ih =>
    have hnow := hm 0 (Nat.succ_pos _)
    have hlater := fun n hn => hm (n + 1) (Nat.succ_lt_succ hn)
    cases hstays : call.isWithin stays with
    | false =>
      obtain ⟨i, hcall, hi⟩ : ∃ i, call.cursor? = some i ∧ stays i = false := by
        rw [Call.isWithin] at hstays
        cases hcall : call.cursor? with
        | none => rw [hcall] at hstays; cases hstays
        | some i => exact ⟨i, rfl, by rwa [hcall] at hstays⟩
      rw [List.filter_cons_of_neg (by simp [hstays]), repliesTo_cons_of_neg (by simp [hstays])]
      exact ih (h.skip hnow hcall (by simp [hi])) hlater
    | true =>
      have hon : ∀ i, call.cursor? = some i → stays i = true := by
        intro i hcall
        rwa [Call.isWithin, hcall] at hstays
      obtain ⟨hreply, hnext⟩ := h.run hnow hon
      obtain ⟨hreplies, hend⟩ := ih hnext hlater
      rw [List.filter_cons_of_pos hstays]
      refine ⟨?_, hend⟩
      cases hreport : call.isReport with
      | true =>
        rw [repliesTo_cons_of_neg (by simp [hreport]), repliesTo_cons_of_neg (by simp [hreport]),
          hreplies]
      | false =>
        rw [repliesTo_cons_of_pos (by simp [hreport]),
          repliesTo_cons_of_pos (by simp [hreport, hstays]), hreplies, hreply hreport]

theorem repliesTo_eq (h : s.Peers (fun _ => True) t) {calls : List Call}
    (hm : ∀ n < calls.length, (s.after (calls.take n)).table.store.InMemory) :
    t.repliesTo (fun call => !call.isReport) calls =
      s.repliesTo (fun call => !call.isReport) calls := by
  have hall : ∀ call : Call, call.isWithin (fun _ => true) = true := by
    intro call
    rw [Call.isWithin]
    cases call.cursor? <;> rfl
  have hpeers : s.Peers (fun i => (fun _ => true) i = true) t :=
    ⟨h.table, h.txns, h.opened, fun i _ => h.cursors i trivial⟩
  have hreplies := (hpeers.runs hm).1
  rw [List.filter_eq_self.2 fun call _ => hall call] at hreplies
  simpa only [hall, Bool.true_and] using hreplies

end Peers

end Session

end Keyspan
