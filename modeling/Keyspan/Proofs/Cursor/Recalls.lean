import Keyspan.Proofs.Compression.Literal
import Keyspan.Proofs.Cursor.Change
import Keyspan.Proofs.Cursor.Finds

/-!
What a cursor holds on to.

A cursor that stands on a record holds the entry that it returned last, one that a bound stopped has set
that entry aside, and the bound is still there. The table may be changed at will between the calls.
-/

set_option autoImplicit false
set_option relaxedAutoImplicit false

namespace Keyspan

def Reply.entries : Reply → List Entry
  | entry e => e.toList
  | near e => (Scan.nearEntry e).toList
  | walked steps => steps.filterMap fun step => step.toOption.join
  | _ => []

/-- What is held is the entry that was returned last. -/
def Held.IsLast (f : Format) (last : Option Entry) (h : Held) : Prop :=
  ∃ e, last = some e ∧ h.Packs f e

namespace Place

/-- The places of a cursor whose last returned entry is `last`: on that entry, stopped by a bound that
is set with that entry or none set aside, or nowhere. -/
inductive Recalls (f : Format) (b : Bounds) (last : Option Entry) : Place → Prop
  | nowhere : Recalls f b last {}
  | on {h : Held} (hlast : h.IsLast f last) : Recalls f b last (on h)
  | stopped {dir : Direction} {k : Option Held} (hstop : (dir.stop b).isSome)
      (hlast : ∀ h ∈ k, h.IsLast f last) :
      Recalls f b last ⟨.exhausted dir (k.map fun h => ⟨h.key⟩), none, k⟩

namespace Recalls

variable {f : Format} {b : Bounds} {last : Option Entry} {p : Place}

theorem stop (h : p.Recalls f b last) {dir : Direction} (hstop : (dir.stop b).isSome) :
    (p.stop dir).Recalls f b last := by
  cases h with
  | nowhere => exact .stopped (k := none) hstop nofun
  | on hlast =>
    refine .stopped (k := some _) hstop fun x hx => ?_
    obtain rfl := Option.some.inj hx
    exact hlast
  | stopped _ hlast => exact .stopped hstop hlast

theorem reopen (h : p.Recalls f b last) (b' : Bounds) : p.reopen.Recalls f b' last := by
  cases h with
  | nowhere => exact .nowhere
  | on hlast => exact .on hlast
  | @stopped dir kept _ hlast =>
    cases kept with
    | none => exact .nowhere
    | some x => exact .on (hlast x rfl)

end Recalls

end Place

/-- A call on a cursor, and the table as the call meets it. -/
structure Visit where
  table : Table
  call : CursorCall

namespace Cursor

def parked (c : Cursor) : Option Held :=
  c.place.parked

def visit (c : Cursor) (v : Visit) : Reply × Cursor :=
  let (reply, s) := v.call.run ⟨c, v.table⟩
  (reply, s.cursor)

/-- The entries that some visits hand out, in order, and the cursor after them. -/
def visits (c : Cursor) : List Visit → List Entry × Cursor
  | [] => ([], c)
  | v :: rest =>
    let (reply, c) := c.visit v
    let (entries, c) := c.visits rest
    (reply.entries ++ entries, c)

def Recalls (c : Cursor) (f : Format) (last : Option Entry) : Prop :=
  c.place.Recalls f c.bounds last

variable {c : Cursor} {f : Format} {last : Option Entry}

theorem Recalls.withBounds (h : c.Recalls f last) (b : Bounds) : (c.withBounds b).Recalls f last :=
  h.reopen b

private theorem Recalls.setKey (h : c.Recalls f last) {key : Key} {d : Cursor}
    (hd : outcome (Cursor.setKey f key) c = .ok d) : d.Recalls f last := by
  rw [outcome_setKey] at hd
  obtain ⟨packed, -, rfl⟩ := exists_of_map_eq_ok hd
  exact h

private theorem Recalls.setBound (h : c.Recalls f last) {side : Side} {key : Key} {inclusive : Bool}
    {d : Cursor} (hd : outcome (Cursor.setBound f side key inclusive) c = .ok d) :
    d.Recalls f last := by
  rw [outcome_setBound] at hd
  obtain ⟨b, -, rfl⟩ := exists_of_map_eq_ok hd
  exact h.withBounds b

private theorem Recalls.applyBound (h : c.Recalls f last) {request : BoundRequest} {d : Cursor}
    (hd : outcome (Cursor.applyBound f request) c = .ok d) : d.Recalls f last := by
  rw [outcome_applyBound] at hd
  split at hd
  · cases hd
    exact h.withBounds _
  · split at hd
    · cases hd
    · cases hd
    next side key _ _ =>
      obtain ⟨b, -, rfl⟩ := exists_of_map_eq_ok hd
      exact h.withBounds b

private theorem Recalls.configureBound (h : c.Recalls f last) {config : String} {d : Cursor}
    (hd : outcome (Cursor.configureBound f config) c = .ok d) : d.Recalls f last := by
  rw [Cursor.configureBound] at hd
  split at hd
  · exact h.applyBound hd
  · cases hd

theorem Recalls.finds {s : Scan} (h : s.cursor.Recalls s.table.format last) {α : Type}
    {call : ScanM α} {found : α → Option Entry} {missed : Place → Prop}
    (hfind : s.Finds found missed call)
    (hmissed : ∀ p, missed p → p.Recalls s.table.format s.cursor.bounds last) :
    match call.run s with
    | .ok a u => u.table.format = s.table.format ∧
      u.cursor.Recalls s.table.format ((found a).or last)
    | .error _ u => u.cursor.Recalls s.table.format last := by
  rw [Scan.Finds] at hfind
  cases hrun : call.run s with
  | ok a u =>
    rw [hrun] at hfind
    obtain ⟨hformat, p, hcursor, hp⟩ := hfind
    refine ⟨hformat, ?_⟩
    rw [Recalls, hcursor]
    cases hfound : found a with
    | some e =>
      rw [hfound] at hp
      obtain ⟨x, rfl, hx⟩ := hp
      exact .on ⟨e, rfl, hx⟩
    | none =>
      rw [hfound] at hp
      exact hmissed p hp
  | error e u =>
    rw [hrun] at hfind
    show u.cursor.Recalls _ _
    rw [show u.cursor = s.cursor from congrArg Prod.fst hfind]
    exact h

private theorem Recalls.stopped {s : Scan} (h : s.cursor.Recalls s.table.format last)
    {dir : Direction} :
    ∀ p, s.Stopped dir p → p.Recalls s.table.format s.cursor.bounds last := by
  rintro p (rfl | rfl | ⟨rfl, hstop⟩)
  · exact h
  · exact .nowhere
  · exact h.stop hstop

end Cursor

namespace CursorCall

variable {s : Scan} {last : Option Entry}

def Remembered (last : Option Entry) (s : Scan) (r : Reply × Scan) : Prop :=
  r.2.cursor.Recalls s.table.format (r.1.entries.getLast?.or last)

private theorem remembered_answer (h : s.cursor.Recalls s.table.format last) {α : Type}
    {call : ScanM α}
    {found : α → Option Entry} {missed : Place → Prop} (hfind : s.Finds found missed call)
    (hmissed : ∀ p, missed p → p.Recalls s.table.format s.cursor.bounds last)
    {reply : α → Reply} (hreply : ∀ a, (reply a).entries = (found a).toList) :
    Remembered last s (answer reply call s) := by
  have hafter := h.finds hfind hmissed
  rw [Remembered, answer]
  cases hrun : call.run s with
  | ok a u =>
    rw [hrun] at hafter
    obtain ⟨-, hu⟩ := hafter
    dsimp only
    rw [hreply]
    generalize found a = e at hu
    cases e <;> exact hu
  | error e u =>
    rw [hrun] at hafter
    exact hafter

private theorem remembered_change (h : s.cursor.Recalls s.table.format last) {call : CursorM Unit}
    (hatomic : Atomic call)
    (hcall : ∀ c, outcome call s.cursor = .ok c → c.Recalls s.table.format last) :
    Remembered last s (change s call) := by
  rw [change_eq_taken hatomic]
  cases houtcome : outcome call s.cursor with
  | ok c => exact hcall c houtcome
  | error e => exact h

private theorem remembered_walk (h : s.cursor.Recalls s.table.format last) (dir : Direction)
    (n : Nat) :
    Remembered last s (.walked (Scan.walk dir n s).1, (Scan.walk dir n s).2) := by
  induction n generalizing s last with
  | zero => exact h
  | succ n ih =>
    have hstep := h.finds (Scan.finds_step s dir) h.stopped
    rw [Remembered, Scan.walk]
    cases hrun : (Scan.step dir).run s with
    | ok found u =>
      rw [hrun] at hstep
      obtain ⟨hformat, hu⟩ := hstep
      cases found with
      | none => exact hu
      | some e =>
        have hrest := ih (s := u) (by rw [hformat]; exact hu)
        rw [Remembered, hformat] at hrest
        -- what the rest of the walk returns comes after the entry of this step
        show Cursor.Recalls _ _ (([e] ++ (Reply.walked (Scan.walk dir n u).1).entries).getLast?.or _)
        rw [List.getLast?_append, Option.or_assoc]
        exact hrest
    | error e u =>
      rw [hrun] at hstep
      exact hstep

theorem remembered_run (h : s.cursor.Recalls s.table.format last) (call : CursorCall) :
    Remembered last s (run s call) := by
  cases call with
  | setTxn txn => exact h
  | setKey key => exact remembered_change h (Cursor.atomic_setKey _ key) fun _ hc => h.setKey hc
  | get => exact h
  | configureBound config =>
    exact remembered_change h (Cursor.atomic_configureBound _ config) fun _ hc => h.configureBound hc
  | applyBound request =>
    exact remembered_change h (Cursor.atomic_applyBound _ request) fun _ hc => h.applyBound hc
  | setBound side key inclusive =>
    exact remembered_change h (Cursor.atomic_setBound _ side key inclusive) fun _ hc => h.setBound hc
  | clearBound side => exact h.withBounds _
  | reset => exact Place.Recalls.nowhere
  | next => exact remembered_answer h (Scan.finds_step s .forward) h.stopped fun _ => rfl
  | prev => exact remembered_answer h (Scan.finds_step s .backward) h.stopped fun _ => rfl
  | search =>
    refine remembered_answer h (Scan.finds_search s) ?_ fun _ => rfl
    rintro p rfl
    exact .nowhere
  | searchNear =>
    refine remembered_answer h (Scan.finds_searchNear s) ?_ fun _ => rfl
    rintro p rfl
    exact .nowhere
  | walk dir n => exact remembered_walk h dir n

end CursorCall

namespace Cursor

variable {c : Cursor} {f : Format} {last : Option Entry}

private theorem Recalls.visits (h : c.Recalls f last) {visits : List Visit}
    (same : ∀ v ∈ visits, v.table.format = f) :
    (c.visits visits).2.Recalls f ((c.visits visits).1.getLast?.or last) := by
  induction visits generalizing c last with
  | nil => exact h
  | cons v rest ih =>
    have hformat := same v List.mem_cons_self
    have hstep := CursorCall.remembered_run (s := ⟨c, v.table⟩) (by rw [hformat]; exact h) v.call
    rw [CursorCall.Remembered, hformat] at hstep
    have hrest := ih hstep fun w hw => same w (List.mem_cons_of_mem v hw)
    rw [← Option.or_assoc, ← List.getLast?_append] at hrest
    exact hrest

/-- Whatever is called on a cursor, and however its table changes in between: on a key, the cursor
holds the entry of that key, which is the one returned last, and has none set aside; unpositioned, it
holds and has set aside nothing; stopped, it holds nothing, the bound that stopped it is set, and set
aside is the entry of the last key, which is the one returned last, if there is a last key. The key and
the value of a cursor can be had just when it stands on a key. -/
theorem holds_last_returned (f : Format) (id : Nat) (options : CursorOptions) (visits : List Visit)
    (same : ∀ v ∈ visits, v.table.format = f) :
    let c := (Cursor.visits { id, options } visits).2
    let last := (Cursor.visits { id, options } visits).1.getLast?
    (match c.position with
      | .unpositioned => c.current = none ∧ c.parked = none
      | .positioned anchor => c.parked = none ∧ ∃ h e, c.current = some h ∧ h.key = anchor.key ∧
          last = some e ∧ c.key f = .ok e.key ∧ c.value = .ok e.value
      | .exhausted dir kept => c.current = none ∧ (dir.stop c.bounds).isSome ∧
          c.parked.map Held.key = kept.map Anchor.key ∧
          ∀ h, c.parked = some h → ∃ e, last = some e ∧ f.unpackKey h.key = .ok e.key ∧
            h.value = e.value) ∧
      ((∃ k, c.key f = .ok k) ↔ ∃ anchor, c.position = .positioned anchor) ∧
      ((∃ v, c.value = .ok v) ↔ ∃ anchor, c.position = .positioned anchor) := by
  intro c last
  have hfresh : Recalls { id, options } f none := .nowhere
  have h := hfresh.visits same
  rw [Option.or_none] at h
  change c.place.Recalls f c.bounds last at h
  simp only [position, current, parked, key, value]
  generalize c.place = p at h
  cases h with
  | nowhere => exact ⟨⟨rfl, rfl⟩, ⟨nofun, nofun⟩, ⟨nofun, nofun⟩⟩
  | @on h hlast =>
    obtain ⟨e, hlast, hkey, hvalue⟩ := hlast
    refine ⟨⟨rfl, h, e, rfl, rfl, hlast, hkey, congrArg _ hvalue⟩, ?_, ?_⟩
    · exact ⟨fun _ => ⟨_, rfl⟩, fun _ => ⟨e.key, hkey⟩⟩
    · exact ⟨fun _ => ⟨_, rfl⟩, fun _ => ⟨h.value, rfl⟩⟩
  | @stopped dir kept hstop hlast =>
    refine ⟨⟨rfl, hstop, ?_, hlast⟩, ⟨nofun, nofun⟩, ⟨nofun, nofun⟩⟩
    cases kept <;> rfl

def shelf (pairs : List (Key × Bytes)) : Table :=
  let t : Table := .empty ⟨[.int], by decide⟩ { codec := Snappy.codec, capacity := 2 }
  finalState ((Table.load pairs).run t)

/-- A bounded walk over a table that loses the record under the cursor and gains one past the bound.
A search without a staged key fails on the way. -/
def bounded : List Visit :=
  [⟨shelf [], .setBound .upper (.int 5) true⟩, ⟨shelf [(.int 3, [1])], .next⟩,
    ⟨shelf [(.int 3, [1])], .search⟩, ⟨shelf [(.int 7, [2])], .next⟩]

theorem holds_last_returned_bounded :
    let c := (Cursor.visits { id := 1, options := {} } bounded).2
    (∃ anchor, c.position = .exhausted .forward (some anchor) ∧
      ∃ h, c.parked = some h ∧ h.key = anchor.key ∧ h.value = [1]) ∧
    c.current = none ∧ c.bounds.upper.isSome ∧ ¬ ∃ k, c.key ⟨[.int], by decide⟩ = .ok k := by
  intro c
  have hlast : (Cursor.visits { id := 1, options := {} } bounded).1.getLast? =
      some ⟨.int 3, [1]⟩ := by
    decide +kernel
  obtain ⟨h, hkey, -⟩ := holds_last_returned ⟨[.int], by decide⟩ 1 {} bounded (by decide +kernel)
  have hposition : (Cursor.visits { id := 1, options := {} } bounded).2.position =
      .exhausted .forward (some ⟨Key.encode (.int 3)⟩) := by
    decide +kernel
  rw [hposition, hlast] at h
  obtain ⟨hcurrent, hstop, hparked, hvalue⟩ := h
  obtain ⟨x, hx, hxkey⟩ := Option.map_eq_some_iff.1 hparked
  obtain ⟨e, he, -, hxe⟩ := hvalue x hx
  obtain rfl := Option.some.inj he
  refine ⟨⟨_, hposition, x, hx, hxkey, hxe⟩, hcurrent, hstop, fun hk => ?_⟩
  obtain ⟨anchor, hanchor⟩ := hkey.1 hk
  cases hposition.symm.trans hanchor

end Cursor

end Keyspan
