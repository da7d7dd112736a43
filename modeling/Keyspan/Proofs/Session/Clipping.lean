import Keyspan.Proofs.Compression.Literal
import Keyspan.Proofs.Cursor.Amend
import Keyspan.Proofs.Cursor.Recalls
import Keyspan.Proofs.Cursor.Visible
import Keyspan.Proofs.Session.Sound

/-!
Runs of calls in which hidden records make a difference, and runs in which they make none.

A step that a bound stops before nothing but hidden records leaves the cursor at the bound. Had they not
been there, the cursor would have left the table. The two places differ in what they remember, and as
long as no call brings this to light, all replies are as if the bound were held against visible records
only.
-/

set_option autoImplicit false
set_option relaxedAutoImplicit false

namespace Keyspan

namespace CursorCall

def isPlacing : CursorCall → Bool
  | reset => true
  | next => true
  | prev => true
  | search => true
  | searchNear => true
  | _ => false

def step? : CursorCall → Option Direction
  | next => some .forward
  | prev => some .backward
  | _ => none

/-- What a call replies, and the scan after it, if steps hold the bound ahead against visible records
only. -/
def runVisible (s : Scan) (call : CursorCall) : Reply × Scan :=
  match call.step? with
  | some dir => answer .entry (Scan.stepVisible dir) s
  | none => call.run s

def effectVisible (s : Scan) (call : CursorCall) : Reply × Cursor :=
  match call.step? with
  | some dir => told s.cursor .entry (s.steppedVisible dir)
  | none => call.effect s

/-- A call that takes one step at most and leaves the transaction of the cursor as it is. -/
def isSingle : CursorCall → Bool
  | setTxn _ => false
  | walk _ _ => false
  | _ => true

variable {s : Scan} {t : Table}

private theorem isPlacing_of_step? {call : CursorCall} {dir : Direction} (h : call.step? = some dir) :
    call.isPlacing = true := by
  cases call with
  | next => rfl
  | prev => rfl
  | _ => cases h

private theorem isPlacing_of_isBounding {call : CursorCall} (h : call.isBounding = true) :
    call.isPlacing = false := by
  cases call with
  | reset => cases h
  | next => cases h
  | prev => cases h
  | search => cases h
  | searchNear => cases h
  | _ => rfl

private theorem effect_of_step? {call : CursorCall} {dir : Direction} (h : call.step? = some dir)
    (s : Scan) : call.effect s = told s.cursor .entry (s.stepped dir) := by
  cases call with
  | next =>
    obtain rfl := Option.some.inj h
    rfl
  | prev =>
    obtain rfl := Option.some.inj h
    rfl
  | _ => cases h

private theorem runVisible_eq_effect (call : CursorCall) (hs : s.table.store.Valid)
    (hfit : s.cursor.options.releaseEvict = true → s.table.store.Fits) :
    ∃ t, s.table.Alike t ∧ t.store.Valid ∧
      call.runVisible s = ((call.effectVisible s).1, ⟨(call.effectVisible s).2, t⟩) := by
  rw [runVisible, effectVisible]
  cases call.step? with
  | some dir =>
    exact answer_run (Scan.stepVisible_comes dir hs fun hrelease => (hfit hrelease).inMemory) hfit
  | none => exact call.run_eq_effect hs hfit

private theorem effectVisible_eq (call : CursorCall) (h : s.table.Alike t) :
    call.effectVisible ⟨s.cursor, t⟩ = call.effectVisible s := by
  rw [effectVisible, effectVisible]
  cases call.step? with
  | some dir => exact congrArg (told s.cursor .entry) (Scan.steppedVisible_eq h dir)
  | none => exact call.effect_eq h

theorem effect_kept {call : CursorCall} (h : call.isSingle = true) (s : Scan) :
    (call.effect s).2.txn = s.cursor.txn ∧ (call.effect s).2.options = s.cursor.options := by
  have htold : ∀ {α : Type} (reply : α → Reply) (r : Except Error α × Place),
      (told s.cursor reply r).2.txn = s.cursor.txn ∧
        (told s.cursor reply r).2.options = s.cursor.options := by
    rintro α reply ⟨e | a, p⟩
    · exact ⟨rfl, rfl⟩
    · exact ⟨rfl, rfl⟩
  cases hbound : call.isBounding with
  | true =>
    obtain ⟨r, hr⟩ := exists_amendment hbound s
    rw [effect_of_amendment? hr]
    rcases r with e | (key | b) <;> exact ⟨rfl, rfl⟩
  | false =>
    cases call with
    | get => exact ⟨rfl, rfl⟩
    | reset => exact ⟨rfl, rfl⟩
    | next => exact htold _ _
    | prev => exact htold _ _
    | search => exact htold _ _
    | searchNear => exact htold _ _
    | setTxn txn => cases h
    | walk dir n => cases h
    | _ => cases hbound

end CursorCall

/-- The replies of a run of calls on one cursor, if calls are carried out in this way. -/
def Scan.replies (run : Scan → CursorCall → Reply × Scan) : Scan → List CursorCall → List Reply
  | _, [] => []
  | s, call :: rest =>
    let (reply, s) := run s call
    reply :: replies run s rest

/-- How the two places of a cursor have come apart: not at all; or one is stopped in a direction in
which the other has left the table; or both are stopped, and only one knows what was returned before;
or a change of bounds has put that one back. -/
inductive Rift
  | closed
  | ahead (dir : Direction)
  | behind
  | lost
  deriving DecidableEq, Repr

namespace Rift

/-- The place of a cursor, and where the cursor would be if hidden records stopped no step. -/
inductive Between : Rift → Place → Place → Prop
  | closed (p : Place) : Between .closed p p
  | ahead (dir : Direction) (last : Option Anchor) (parked : Option Held) :
      Between (.ahead dir) ⟨.exhausted dir last, none, parked⟩ {}
  | behind (dir : Direction) (last : Option Anchor) (parked : Option Held) :
      Between .behind ⟨.exhausted dir last, none, parked⟩ ⟨.exhausted dir none, none, none⟩
  | lost {p : Place} (hp : p.isStopped = false) : Between .lost p {}

/-- What becomes of a rift in a call with this reply that takes the cursor to the place `p`. It opens
where a bound stops a step before nothing but hidden records, and closes where the cursor gets an entry
or leaves the table. -/
def next (rift : Rift) (s : Scan) (call : CursorCall) (reply : Reply) (p : Place) : Rift :=
  match reply, p.position with
  | .failed _, _ => rift
  | _, .exhausted dir _ =>
    -- A cursor that was stopped already has not moved.
    if s.isExhausted dir = true then rift
    else if s.blind dir = true then .ahead dir
    else if rift = .closed then .closed
    else .behind
  | _, _ => if rift = .closed ∨ call.isPlacing = true ∨ p = {} then .closed else .lost

/-- The call brings the rift to light: it steps on in the direction in which only one cursor is stopped,
and there is something to start over with; or only one cursor goes on from the entry that it holds; or
only one has an entry to show. -/
def reveals (rift : Rift) (s : Scan) (call : CursorCall) : Bool :=
  match rift, call.step? with
  | ahead dir, some d => d = dir && !(s.placed {}).blind dir
  | lost, some dir => s.originSeek dir ≠ (s.placed {}).originSeek dir
  | lost, none => call = .get && s.cursor.current.isSome
  | _, _ => false

/-- No call of a run brings a rift to light. -/
def unseen : Rift → Scan → List CursorCall → Bool
  | _, _, [] => true
  | rift, s, call :: rest =>
    let (reply, u) := call.run s
    !rift.reveals s call && unseen (rift.next s call reply u.cursor.place) u rest

variable {rift : Rift} {s : Scan} {p q : Place} {dir : Direction} {call : CursorCall}

private theorem reveals_ahead (hcall : call.step? = some dir) (d : Direction) :
    (ahead d).reveals s call = (dir = d && !(s.placed {}).blind d) := by
  unfold reveals
  rw [hcall]

private theorem reveals_lost (hcall : call.step? = some dir) :
    lost.reveals s call = decide (s.originSeek dir ≠ (s.placed {}).originSeek dir) := by
  unfold reveals
  rw [hcall]

section Next

variable (reply : Reply) (hreply : reply.isFailed = false)
include hreply

private theorem next_of_stopped {k : Option Anchor} (hp : p.position = .exhausted dir k) :
    rift.next s call reply p = if s.isExhausted dir = true then rift
      else if s.blind dir = true then .ahead dir else if rift = .closed then .closed else .behind := by
  unfold next
  rw [hp]
  cases reply with
  | failed e => cases hreply
  | _ => rfl

private theorem next_of_not_stopped (hp : p.isStopped = false) :
    rift.next s call reply p =
      if rift = .closed ∨ call.isPlacing = true ∨ p = {} then .closed else .lost := by
  unfold next
  cases reply with
  | failed e => cases hreply
  | _ =>
    cases hposition : p.position with
    | exhausted d k => exact absurd hposition (Place.position_ne_of_isStopped hp)
    | _ => rfl

theorem Between.stay (h : rift.Between s.cursor.place q) (hcall : call.isPlacing = false) :
    (rift.next s call reply s.cursor.place).Between s.cursor.place q := by
  cases hstopped : s.cursor.place.isStopped with
  | true =>
    obtain ⟨d, k, hp⟩ := Place.isStopped_iff.1 hstopped
    rw [next_of_stopped reply hreply hp, if_pos (Scan.isExhausted_iff.2 ⟨k, hp⟩)]
    exact h
  | false =>
    rw [next_of_not_stopped reply hreply hstopped, hcall]
    generalize s.cursor.place = p at h hstopped
    cases h with
    | closed => exact .closed _
    | ahead => cases hstopped
    | behind => cases hstopped
    | lost _ =>
      split
      next hempty =>
        rw [(hempty.resolve_left (by simp)).resolve_left Bool.false_ne_true]
        exact .closed {}
      next => exact .lost hstopped

end Next

/-- Two outcomes of a call with one reply, in places that have come apart as the rift says. -/
structure Bridges (rift : Rift) (s : Scan) (call : CursorCall) (x y : Reply × Cursor) : Prop where
  reply : y.1 = x.1
  cursor : ∃ q, y.2 = { x.2 with place := q } ∧
    (rift.next s call x.1 x.2.place).Between x.2.place q

private theorem Between.bridges_together (h : rift.Between s.cursor.place q)
    (hcall : call.isPlacing = true) {α : Type} (reply : α → Reply)
    (hreply : ∀ a, (reply a).isFailed = false) {x y : Except Error α × Place}
    (hxy : Scan.Together s.cursor.place q x y) :
    rift.Bridges s call (CursorCall.told s.cursor reply x)
      (CursorCall.told (s.placed q).cursor reply y) := by
  cases hxy with
  | failed e => exact ⟨rfl, q, rfl, h⟩
  | ended a r hr =>
    refine ⟨rfl, r, rfl, ?_⟩
    show (rift.next s call (reply a) r).Between r r
    rw [next_of_not_stopped (reply a) (hreply a) hr, if_pos (.inr (.inl hcall))]
    exact .closed r

theorem Between.stop (h : rift.Between s.cursor.place q) (hopen : s.isExhausted dir = false) :
    (rift.next s call (.entry none) (s.cursor.place.stop dir)).Between (s.cursor.place.stop dir)
      (if s.blind dir = true then {} else q.stop dir) := by
  rw [next_of_stopped (.entry none) rfl rfl, hopen, if_neg Bool.false_ne_true]
  by_cases hblind : s.blind dir = true
  · rw [if_pos hblind, if_pos hblind]
    exact .ahead dir _ _
  · rw [if_neg hblind, if_neg hblind]
    generalize s.cursor.place = p at h
    cases h with
    | closed => exact .closed _
    | ahead => exact .behind dir _ _
    | behind => exact .behind dir _ _
    | lost => exact .behind dir _ _

theorem Between.originSeek_eq (h : rift.Between p q) (hcall : call.step? = some dir)
    (hseen : rift.reveals (s.placed p) call = false) :
    (s.placed q).originSeek dir = (s.placed p).originSeek dir := by
  have hseed : ∀ p, p.position.anchor? = none →
      (s.placed p).originSeek dir = Scan.seedSeek dir s.cursor.bounds :=
    fun p hp => Scan.originSeek_of_anchor?_none (s := s.placed p) hp
  cases h with
  | closed => rfl
  | ahead => rw [hseed _ rfl, hseed _ rfl]
  | behind => rw [hseed _ rfl, hseed _ rfl]
  | lost =>
    rw [reveals_lost hcall] at hseen
    exact (of_not_not (of_decide_eq_false hseen)).symm

theorem Between.isExhausted_cases (h : rift.Between p q) (s : Scan) (dir : Direction) :
    (s.placed q).isExhausted dir = (s.placed p).isExhausted dir ∨
      (rift = .ahead dir ∧ q = {} ∧ (s.placed p).isExhausted dir = true) := by
  cases h with
  | closed => exact .inl rfl
  | ahead d k x =>
    by_cases hd : d = dir
    · exact .inr ⟨congrArg _ hd, rfl, beq_iff_eq.2 hd⟩
    · exact .inl (beq_eq_false_iff_ne.2 hd).symm
  | behind => exact .inl rfl
  | lost hp =>
    refine .inl (Bool.eq_false_iff.2 fun hstop => ?_).symm
    obtain ⟨k, hk⟩ := Scan.isExhausted_iff.1 hstop
    exact Place.position_ne_of_isStopped hp hk

/-- A step in the direction in which the cursor is stopped, where it brings no rift to light. The other
cursor is stopped too, or finds nothing either. -/
theorem Between.bridges_stopped (h : rift.Between s.cursor.place q) (hcall : call.step? = some dir)
    (hsettled : s.table.Uncontested s.reader) (hseen : rift.reveals s call = false)
    (hstopped : s.isExhausted dir = true) :
    rift.Bridges s call (CursorCall.told s.cursor .entry (.ok none, s.cursor.place))
      (CursorCall.told (s.placed q).cursor .entry
        (if (s.placed q).isExhausted dir then (.ok none, q) else (s.placed q).resultVisible dir)) := by
  obtain ⟨k, hp⟩ := Scan.isExhausted_iff.1 hstopped
  have hnext : rift.next s call (.entry none) s.cursor.place = rift := by
    rw [next_of_stopped (.entry none) rfl hp, if_pos hstopped]
  have hstays : (if (s.placed q).isExhausted dir then (.ok none, q)
      else (s.placed q).resultVisible dir) = (.ok none, q) := by
    rcases h.isExhausted_cases s dir with hboth | ⟨rfl, rfl, -⟩
    · exact if_pos (hboth.trans hstopped)
    · refine (if_neg Bool.false_ne_true).trans ?_
      rw [reveals_ahead hcall] at hseen
      have hblind : (s.placed {}).blind dir = true := by simpa using hseen
      rcases (s.placed {}).sighting_cases hsettled dir with ⟨-, hfound⟩ | ⟨hsees, -⟩
      · exact Scan.resultVisible_of_nothing hfound
      · cases hblind.symm.trans hsees
  rw [hstays]
  exact ⟨rfl, q, rfl, hnext.symm ▸ h⟩

theorem Between.bridges_step (h : rift.Between s.cursor.place q) (hcall : call.step? = some dir)
    (hs : s.table.store.Valid) (hordered : s.table.store.order = .typed s.table.format)
    (hsettled : s.table.Uncontested s.reader) (hseen : rift.reveals s call = false) :
    rift.Bridges s call (CursorCall.told s.cursor .entry (s.stepped dir))
      (CursorCall.told (s.placed q).cursor .entry ((s.placed q).steppedVisible dir)) := by
  rw [Scan.stepped, Scan.steppedVisible, Scan.placed_heldUp]
  by_cases hheld : s.heldUp = true
  · rw [if_pos hheld, if_pos hheld]
    exact ⟨rfl, q, rfl, h⟩
  rw [if_neg hheld, if_neg hheld]
  by_cases hstopped : s.isExhausted dir = true
  · rw [if_pos hstopped]
    exact h.bridges_stopped hcall hsettled hseen hstopped
  · have hopen : (s.placed q).isExhausted dir = false := by
      rcases h.isExhausted_cases s dir with hboth | ⟨-, -, hstop⟩
      · exact hboth.trans (Bool.eq_false_iff.2 hstopped)
      · exact absurd hstop hstopped
    rw [if_neg hstopped, hopen, if_neg Bool.false_ne_true]
    rcases Scan.result_together_or_stopped hs hordered hsettled (h.originSeek_eq hcall hseen) with
      htogether | ⟨hstop, hvisible⟩
    · exact h.bridges_together (CursorCall.isPlacing_of_step? hcall) .entry (fun _ => rfl) htogether
    · rw [hstop, hvisible]
      exact ⟨rfl, _, rfl, h.stop (Bool.eq_false_iff.2 hstopped)⟩

theorem Between.reopen (h : rift.Between s.cursor.place q) (hcall : call.isPlacing = false) :
    (rift.next s call .done s.cursor.place.reopen).Between s.cursor.place.reopen q.reopen := by
  rw [next_of_not_stopped .done rfl (Place.isStopped_reopen _), hcall]
  generalize s.cursor.place = p at h
  have hempty : ∀ rift, rift ≠ Rift.closed →
      Between (if rift = .closed ∨ false = true ∨ p.reopen = {} then .closed else .lost) p.reopen {} := by
    intro rift hrift
    split
    next h =>
      rw [(h.resolve_left hrift).resolve_left Bool.false_ne_true]
      exact .closed {}
    next => exact .lost p.isStopped_reopen
  cases h with
  | closed => exact .closed _
  | ahead d => exact hempty (.ahead d) (by simp)
  | behind => exact hempty .behind (by simp)
  | lost => exact hempty .lost (by simp)

private theorem Between.bridges_bounding (h : rift.Between s.cursor.place q)
    (hcall : call.isBounding = true) :
    rift.Bridges s call (call.effect s) (call.effect (s.placed q)) := by
  have hplacing := CursorCall.isPlacing_of_isBounding hcall
  obtain ⟨r, hr⟩ := CursorCall.exists_amendment hcall s
  rw [CursorCall.effect_of_amendment? hr, CursorCall.effect_of_amendment? (s := s.placed q) hr]
  rcases r with e | (key | b)
  · exact ⟨rfl, q, rfl, h⟩
  · exact ⟨rfl, q, rfl, h.stay .done rfl hplacing⟩
  · exact ⟨rfl, q.reopen, rfl, h.reopen hplacing⟩

theorem Between.current_eq (h : rift.Between p q) (hseen : rift.reveals (s.placed p) .get = false) :
    q.current = p.current := by
  cases h with
  | closed => rfl
  | ahead => rfl
  | behind => rfl
  | lost =>
    have hnone : p.current = none := by
      simpa [reveals, CursorCall.step?, Cursor.current] using hseen
    exact hnone.symm

theorem Between.bridges (h : rift.Between s.cursor.place q) (hs : s.table.store.Valid)
    (hordered : s.table.store.order = .typed s.table.format)
    (hsettled : s.table.Uncontested s.reader) (hsingle : call.isSingle = true)
    (hseen : rift.reveals s call = false) :
    rift.Bridges s call (call.effect s) (call.effectVisible (s.placed q)) := by
  rw [CursorCall.effectVisible]
  cases hstep : call.step? with
  | some dir =>
    rw [CursorCall.effect_of_step? hstep]
    exact h.bridges_step hstep hs hordered hsettled hseen
  | none =>
    cases hbound : call.isBounding with
    | true => exact h.bridges_bounding hbound
    | false =>
      cases call with
      | get =>
        refine ⟨?_, q, rfl, h.stay _ rfl rfl⟩
        show Reply.holding _ _ = Reply.holding _ _
        simp only [Cursor.key, Cursor.value, Cursor.current, Scan.placed_place, Scan.placed_table]
        rw [h.current_eq hseen]
      | reset =>
        refine ⟨rfl, {}, rfl, ?_⟩
        show (rift.next s .reset .done {}).Between {} {}
        rw [next_of_not_stopped (p := {}) .done rfl rfl, if_pos (.inr (.inl rfl))]
        exact .closed {}
      | search => exact h.bridges_together rfl .entry (fun _ => rfl) (s.searched_together q)
      | searchNear => exact h.bridges_together rfl .near (fun _ => rfl) (s.neared_together q)
      | next => cases hstep
      | prev => cases hstep
      | setTxn txn => cases hsingle
      | walk dir n => cases hsingle
      | _ => cases hbound

theorem Between.replies_eq (h : rift.Between s.cursor.place q) {u : Table} (hsu : s.table.Alike u)
    (hs : s.table.store.Valid) (hu : u.store.Valid)
    (hordered : s.table.store.order = .typed s.table.format)
    (hfit : s.cursor.options.releaseEvict = true → s.table.store.Fits)
    (hsettled : s.table.Uncontested s.reader) {calls : List CursorCall}
    (hsingle : ∀ call ∈ calls, call.isSingle = true) (hunseen : rift.unseen s calls = true) :
    Scan.replies CursorCall.runVisible ⟨{ s.cursor with place := q }, u⟩ calls =
      Scan.replies (fun s call => call.run s) s calls := by
  induction calls generalizing rift s q u with
  | nil => rfl
  | cons call calls ih =>
    have hcall := hsingle call List.mem_cons_self
    rw [unseen, Bool.and_eq_true] at hunseen
    obtain ⟨hseen, hrest⟩ := hunseen
    have hbridges := h.bridges hs hordered hsettled hcall (by simpa using hseen)
    obtain ⟨t, hst, ht, hrun⟩ := call.run_eq_effect hs hfit
    obtain ⟨v, huv, hv, hvisible⟩ :=
      call.runVisible_eq_effect (s := ⟨(s.placed q).cursor, u⟩) hu
        fun hrelease => hsu.store.fits (hfit hrelease)
    rw [CursorCall.effectVisible_eq (s := s.placed q) call hsu] at hvisible
    obtain ⟨hreply, q', hcursor, hbetween⟩ := hbridges
    obtain ⟨htxn, hoptions⟩ := CursorCall.effect_kept hcall s
    rw [hrun] at hrest
    have hreader : Scan.reader ⟨(call.effect s).2, t⟩ = s.reader := by
      rw [← Scan.reader_eq hst, Scan.reader, Scan.reader, htxn]
    have hnext := ih (s := ⟨(call.effect s).2, t⟩) hbetween (hst.symm.trans (hsu.trans huv)) ht hv
      (by rw [hst.store.order, hst.format]; exact hordered)
      (fun hrelease => hst.store.fits (hfit (hoptions ▸ hrelease)))
      (by rw [hreader]; exact hsettled.alike hst)
      (fun c hc => hsingle c (List.mem_cons_of_mem call hc)) hrest
    rw [Scan.replies, Scan.replies, hrun]
    show (let (reply, s') := call.runVisible ⟨(s.placed q).cursor, u⟩
      reply :: Scan.replies CursorCall.runVisible s' calls) = _
    rw [hvisible, hreply, hcursor]
    exact congrArg _ hnext

end Rift

namespace Session

/-- Whatever calls led to a table in which no other transaction has prepared updates, and whatever
cursor is put on it: in a run of calls in which no rift comes to light, all replies are the same as if
steps passed over hidden records first and held the bound against the visible ones only. -/
theorem clipping_hidden_changes_no_reply (f : Format) (paging : Paging) (past : List Call)
    (memory : ∀ n < past.length, ((fresh f paging).after (past.take n)).table.store.InMemory)
    (c : Cursor) :
    let t := ((fresh f paging).after past).table
    (c.options.releaseEvict = true → t.store.Fits) → t.Uncontested (Scan.reader ⟨c, t⟩) →
    ∀ calls : List CursorCall, (∀ call ∈ calls, call.isSingle = true) →
      Rift.closed.unseen ⟨c, t⟩ calls = true →
      Scan.replies CursorCall.runVisible ⟨c, t⟩ calls =
        Scan.replies (fun s call => call.run s) ⟨c, t⟩ calls := by
  intro t hfit hsettled calls hsingle hunseen
  have hsound : t.Sound f := sound_after (Table.sound_empty f paging) memory
  have hordered : t.store.order = .typed t.format := by
    rw [hsound.ordered, hsound.format]
  exact (Rift.Between.closed c.place).replies_eq (s := ⟨c, t⟩) (.refl t) hsound.valid hsound.valid
    hordered hfit hsettled hsingle hunseen

def trimmed : List Call :=
  [.insert none (.int 1) [10], .insert none (.int 3) [30], .remove none (.int 3)]

/-- A bound stops a walk before a hidden record, and other calls follow. -/
def tactful : List CursorCall :=
  [.setBound .upper (.int 2) true, .next, .next, .get, .prev, .next, .clearBound none, .setKey (.int 3),
    .searchNear, .next]

theorem clipping_hidden_changes_no_reply_tactful :
    let t := ((fresh ⟨[.int], by decide⟩ { codec := Snappy.codec }).after trimmed).table
    let s : Scan := ⟨{ id := 1, options := {} }, t⟩
    let replies := Scan.replies CursorCall.runVisible s tactful
    replies = Scan.replies (fun s call => call.run s) s tactful ∧
      replies.flatMap Reply.entries = [⟨.int 1, [10]⟩, ⟨.int 1, [10]⟩, ⟨.int 1, [10]⟩] := by
  intro t s replies
  have hsame := clipping_hidden_changes_no_reply ⟨[.int], by decide⟩ { codec := Snappy.codec } trimmed
    (by decide +kernel)
    { id := 1, options := {} } nofun (by decide +kernel) tactful (by decide) (by decide +kernel)
  exact ⟨hsame, by decide +kernel⟩

/-- A bound stops a walk before a hidden record, and the walk is asked to go on. -/
def pressing : List CursorCall :=
  [.setBound .upper (.int 2) true, .next, .next, .next]

/-- Steps that see only visible records leave the table where steps stop at the bound, and start over at
the next call. -/
theorem visible_steps_start_over :
    let t := ((fresh ⟨[.int], by decide⟩ { codec := Snappy.codec }).after trimmed).table
    let s : Scan := ⟨{ id := 1, options := {} }, t⟩
    t.ledger.running = [] ∧ Scan.replies CursorCall.runVisible s pressing ≠
      Scan.replies (fun s call => call.run s) s pressing := by
  intro t s
  refine ⟨by decide +kernel, fun h => ?_⟩
  have hentries := congrArg (fun replies => replies.flatMap Reply.entries) h
  exact absurd hentries (by decide +kernel)

end Session

end Keyspan
