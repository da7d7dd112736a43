import Keyspan.Proofs.Compression.Literal
import Keyspan.Proofs.Cursor.Recalls
import Keyspan.Proofs.Cursor.Resume
import Keyspan.Proofs.Session.Apart
import Keyspan.Proofs.Session.Peers
import Keyspan.Proofs.Session.Shown

/-!
Walks between whose steps the bound ahead is changed.

However it is set, moved, cleared or refused, the steps return the entries within the bound that the
walk started from, in order and without a gap, and a change puts the cursor back on the last of them.
-/

set_option autoImplicit false
set_option relaxedAutoImplicit false

namespace Keyspan

/-- A call that may come between the steps of a walk: one that looks at what the cursor holds or
changes its bounds, or one that leaves the cursor alone, writes nothing and is on no transaction. -/
def Call.isAside (i : Nat) : Call → Bool
  | txn _ => false
  | store (.append _ _) => false
  | store _ => true
  | insert _ _ _ => false
  | remove _ _ => false
  | stats => true
  | openCursor _ => true
  | closeCursor k => k ≠ i
  | setTxn k _ => k ≠ i
  | cursor k call => k ≠ i ∨ call = .get ∨ call.isBounding

private theorem Call.isAside_cases {i : Nat} {call : Call} (h : call.isAside i = true) (j : Nat) :
    (∃ c : CursorCall, call = .cursor i c ∧ (c = .get ∨ c.isBounding = true)) ∨
      call.isApart i j = true ∧ call.isEventful = false := by
  cases call with
  | txn call => cases h
  | store call =>
    cases call with
    | append key v => cases h
    | _ => exact Or.inr ⟨rfl, rfl⟩
  | insert txn key value => cases h
  | remove txn key => cases h
  | stats => exact Or.inr ⟨rfl, rfl⟩
  | openCursor options => exact Or.inr ⟨rfl, rfl⟩
  | closeCursor k => exact Or.inr ⟨h, rfl⟩
  | setTxn k txn => exact Or.inr ⟨h, rfl⟩
  | cursor k c =>
    by_cases hk : k = i
    · subst hk
      have hc := of_decide_eq_true h
      exact Or.inl ⟨c, rfl, hc.resolve_left fun hne => hne rfl⟩
    · exact Or.inr ⟨decide_eq_true hk, rfl⟩

namespace Session

def near? (s : Session) (i : Nat) (dir : Direction) : Option (Option Bound) :=
  s.cursors[i]?.map fun c => dir.start c.bounds

def runsOff (s : Session) (i : Nat) (dir : Direction) : Bool :=
  match s.run (.cursor i dir.call) with
  | (.entry none, t) => t.cursors[i]?.any fun c => c.position = .unpositioned
  | _ => false

/-- A walk of `c` over `t` has returned `returned` of the entries `es`. -/
structure Midway (s : Session) (i : Nat) (dir : Direction) (t : Table) (c : Cursor)
    (es returned : List Entry) : Prop where
  table : t.Alike s.table
  valid : s.table.store.Valid
  isPrefix : returned <+: es
  cursor : ∃ d, s.cursors[i]? = some d ∧
    c.Midway d t.format dir (es.map Entry.held) (returned.map Entry.held)

namespace Midway

variable {s : Session} {i : Nat} {dir : Direction} {t : Table} {c : Cursor}
  {es returned : List Entry} {shown : Bytes → Bytes → Prop} {call : Call}

theorem exists_next {x : Held} (hes : returned <+: es)
    (hx : returned.map Entry.held ++ [x] <+: es.map Entry.held) :
    ∃ e, x = e.held ∧ e ∈ es ∧ returned ++ [e] <+: es := by
  obtain ⟨rest, rfl⟩ := hes
  rw [List.map_append, List.prefix_append_right_inj] at hx
  obtain ⟨back, hback⟩ := hx
  obtain ⟨e, rest, rfl, rfl, -⟩ := List.map_eq_cons_iff.1 hback.symm
  refine ⟨e, rfl, List.mem_append_right _ List.mem_cons_self, rest, ?_⟩
  rw [List.append_assoc]
  rfl

section Step

variable (h : s.Midway i dir t c es returned) (hs : t.store.Valid) (hm : t.store.InMemory)
  (hshows : Scan.Shows ⟨c, t⟩ shown) (hsettled : t.Uncontested (Scan.reader ⟨c, t⟩))
  (hlists : Scan.Lists t.format (dir.unclip c.bounds) shown dir (es.map Entry.held))
  (hentry : ∀ e ∈ es, Scan.entry t.format e.held = some e)
include h hs hm hshows hsettled hlists hentry

/-- A step fails and stays, or returns the next entry, or is stopped by a bound that does not admit
the next entry, or leaves the table where there is none. -/
theorem step_cases :
    ∃ d u, s.cursors[i]? = some d ∧ t.Alike u ∧ u.store.Valid ∧
      c.Midway d t.format dir (es.map Entry.held) (returned.map Entry.held) ∧
      ((∃ e, s.run (.cursor i dir.call) =
          (.failed e, { s with table := u, cursors := s.cursors.set i d })) ∨
        (∃ e, returned ++ [e] <+: es ∧ s.run (.cursor i dir.call) = (.entry (some e),
            { s with table := u, cursors := s.cursors.set i { d with place := .on e.held } }) ∧
          c.Midway { d with place := .on e.held } t.format dir (es.map Entry.held)
            ((returned ++ [e]).map Entry.held)) ∨
        (∀ e, es[returned.length]? = some e →
            dir.admits t.format d.bounds e.key.encode = false) ∧
          ∃ p, s.run (.cursor i dir.call) = (.entry none,
              { s with table := u, cursors := s.cursors.set i { d with place := p } }) ∧
            (p.position ≠ .unpositioned → c.Midway { d with place := p } t.format dir
              (es.map Entry.held) (returned.map Entry.held))) := by
  obtain ⟨d, hd, hmid⟩ := h.cursor
  obtain ⟨u, hsu, hu, hend⟩ := Scan.step_comes (s := ⟨d, s.table⟩) dir h.valid
    fun _ => h.table.store.inMemory hm
  refine ⟨d, u, hd, h.table.trans hsu, hu, hmid, ?_⟩
  rcases hend with hrun | ⟨⟨e, hrun⟩, -⟩
  · rw [Scan.stepped_eq (s := ⟨d, t⟩) h.table] at hrun
    rcases hmid.stepped_cases hs hshows hlists hsettled with
      ⟨e, hstep⟩ | ⟨x, key, hkey, hstep, hland⟩ | ⟨hbar, p, hstep, hstay⟩
    · rw [hstep] at hrun
      exact Or.inl ⟨e, run_step_error hd dir hrun⟩
    · rw [hstep] at hrun
      obtain ⟨e, rfl, he, hnext⟩ := exists_next h.isPrefix hland.isPrefix
      have hreturns : (⟨key, e.held.value⟩ : Entry) = e := by
        have hheld := hentry e he
        rw [Scan.entry, hkey] at hheld
        exact Option.some.inj hheld
      rw [hreturns] at hrun
      refine Or.inr (Or.inl ⟨e, hnext, run_step_ok hd dir hrun, ?_⟩)
      rw [List.map_append]
      exact hland
    · rw [hstep] at hrun
      refine Or.inr (Or.inr ⟨fun e he => ?_, p, run_step_ok hd dir hrun, hstay⟩)
      refine hbar e.held ?_
      rw [List.length_map, List.getElem?_map, he]
      rfl
  · exact Or.inl ⟨e, run_step_error hd dir hrun⟩

theorem step (hon : s.runsOff i dir = false) :
    (s.run (.cursor i dir.call)).2.Midway i dir t c es
      (returned ++ (s.run (.cursor i dir.call)).1.entries) := by
  obtain ⟨d, u, hd, htu, hu, hmid, hcases⟩ := h.step_cases hs hm hshows hsettled hlists hentry
  have hi : i < s.cursors.length := (List.getElem?_eq_some_iff.1 hd).1
  rcases hcases with ⟨e, hrun⟩ | ⟨e, hnext, hrun, hland⟩ | ⟨-, p, hrun, hstay⟩
  · have hnone : Reply.entries (.failed e) = [] := rfl
    rw [hrun]
    refine ⟨htu, hu, ?_, d, List.getElem?_set_self hi, ?_⟩
    · rw [hnone, List.append_nil]
      exact h.isPrefix
    · rw [hnone, List.append_nil]
      exact hmid
  · rw [hrun]
    exact ⟨htu, hu, hnext, _, List.getElem?_set_self hi, hland⟩
  · have hp : p.position ≠ .unpositioned := by
      intro hp
      rw [runsOff, hrun] at hon
      dsimp only at hon
      rw [List.getElem?_set_self hi, Option.any_some] at hon
      exact of_decide_eq_false hon hp
    have hnone : Reply.entries (.entry none) = [] := rfl
    rw [hrun]
    refine ⟨htu, hu, ?_, _, List.getElem?_set_self hi, ?_⟩
    · rw [hnone, List.append_nil]
      exact h.isPrefix
    · rw [hnone, List.append_nil]
      exact hstay hp

theorem not_admits_next (hnone : (s.run (.cursor i dir.call)).1 = .entry none) {e : Entry}
    (he : es[returned.length]? = some e) :
    ∃ d, s.cursors[i]? = some d ∧ dir.admits t.format d.bounds e.key.encode = false := by
  obtain ⟨d, u, hd, -, -, -, hcases⟩ := h.step_cases hs hm hshows hsettled hlists hentry
  rcases hcases with ⟨fault, hrun⟩ | ⟨found, -, hrun, -⟩ | ⟨hbar, -⟩
  · rw [hrun] at hnone
    cases hnone
  · rw [hrun] at hnone
    cases hnone
  · exact ⟨d, hd, hbar e he⟩

end Step

theorem change (h : s.Midway i dir t c es returned) {change : CursorCall}
    (hchange : change.isBounding = true)
    (hnear : (s.run (.cursor i change)).2.near? i dir = some (dir.start c.bounds)) :
    (s.run (.cursor i change)).2.Midway i dir t c es returned := by
  obtain ⟨d, hd, hmid⟩ := h.cursor
  have hi : i < s.cursors.length := (List.getElem?_eq_some_iff.1 hd).1
  obtain ⟨r, hr⟩ := CursorCall.exists_amendment hchange ⟨d, s.table⟩
  have hrun : s.run (.cursor i change) = _ := onCursor_of_some hd change
  rw [CursorCall.run_of_amendment? hr] at hrun
  rw [hrun] at hnear ⊢
  cases r with
  | error e => exact ⟨h.table, h.valid, h.isPrefix, d, List.getElem?_set_self hi, hmid⟩
  | ok a =>
    have hstart : dir.start (d.amend a).bounds = dir.start c.bounds := by
      have hset : (s.cursors.set i (d.amend a))[i]? = some (d.amend a) :=
        List.getElem?_set_self hi
      change (s.cursors.set i (d.amend a))[i]?.map _ = _ at hnear
      rw [hset] at hnear
      exact Option.some.inj hnear
    exact ⟨h.table, h.valid, h.isPrefix, _, List.getElem?_set_self hi, hmid.amend hstart⟩

theorem aside (h : s.Midway i dir t c es returned) (hm : t.store.InMemory)
    (hcall : call.isAside i = true)
    (hnear : (s.run call).2.near? i dir = some (dir.start c.bounds)) :
    (s.run call).2.Midway i dir t c es returned := by
  rcases Call.isAside_cases hcall 0 with ⟨change, rfl, rfl | hchange⟩ | ⟨hapart, hquiet⟩
  · obtain ⟨d, hd, hmid⟩ := h.cursor
    have hi : i < s.cursors.length := (List.getElem?_eq_some_iff.1 hd).1
    have hrun : s.run (.cursor i .get) = _ := onCursor_of_some hd .get
    rw [hrun]
    exact ⟨h.table, h.valid, h.isPrefix, d, List.getElem?_set_self hi, hmid⟩
  · exact h.change hchange hnear
  · obtain ⟨d, hd, hmid⟩ := h.cursor
    obtain ⟨halike, hvalid, -⟩ := run_alike h.valid (h.table.store.inMemory hm) hquiet
      (Call.isRaw_of_isApart hapart)
    exact ⟨h.table.trans halike, hvalid, h.isPrefix, d, cursors_run_of_isApart hapart hd, hmid⟩

theorem holds (h : s.Midway i dir t c es returned)
    (hentry : ∀ e ∈ es, Scan.entry t.format e.held = some e) {change : CursorCall}
    (hchange : change.isBounding = true) (hbound : ∀ key, change ≠ .setKey key)
    (hdone : (s.run (.cursor i change)).1 = .done) {e : Entry} (he : returned.getLast? = some e) :
    ((s.run (.cursor i change)).2.run (.cursor i .get)).1 = .holding (.ok e.key) (.ok e.value) := by
  obtain ⟨d, hd, hmid⟩ := h.cursor
  have hi : i < s.cursors.length := (List.getElem?_eq_some_iff.1 hd).1
  obtain ⟨r, hr⟩ := CursorCall.exists_amendment hchange ⟨d, s.table⟩
  have hrun : s.run (.cursor i change) = _ := onCursor_of_some hd change
  rw [CursorCall.run_of_amendment? hr] at hrun
  rcases r with fault | (key | b)
  · rw [hrun] at hdone
    cases hdone
  · obtain ⟨k, rfl⟩ := CursorCall.exists_setKey_of_stage hr
    exact absurd rfl (hbound k)
  · have hset : (s.run (.cursor i change)).2.cursors[i]? = some (d.amend (.rebound b)) := by
      rw [hrun]
      exact List.getElem?_set_self hi
    have hformat : (s.run (.cursor i change)).2.table.format = t.format := by
      rw [hrun]
      exact h.table.format
    have hplace : (d.amend (.rebound b)).place = .on e.held := by
      refine hmid.place_rebound ?_ b
      rw [List.getLast?_map, he]
      rfl
    have hkey : t.format.unpackKey e.held.key = .ok e.key := by
      have hheld := hentry e (h.isPrefix.subset (List.mem_of_getLast? he))
      rw [Scan.entry] at hheld
      split at hheld
      next key hkey =>
        rw [hkey]
        exact congrArg (fun e : Entry => Except.ok e.key) (Option.some.inj hheld)
      next => cases hheld
    have hget : ((s.run (.cursor i change)).2.run (.cursor i .get)).1 = _ :=
      congrArg Prod.fst (onCursor_of_some hset .get)
    rw [hget]
    show Reply.holding (Cursor.key _ (d.amend (.rebound b))) (Cursor.value (d.amend (.rebound b))) = _
    rw [Cursor.key, Cursor.value, Cursor.current, hplace, hformat]
    show Reply.holding (t.format.unpackKey e.held.key) _ = _
    rw [hkey]
    rfl

section Run

variable (hs : t.store.Valid) (hm : t.store.InMemory)
  (hshows : Scan.Shows ⟨c, t⟩ shown) (hsettled : t.Uncontested (Scan.reader ⟨c, t⟩))
  (hlists : Scan.Lists t.format (dir.unclip c.bounds) shown dir (es.map Entry.held))
  (hentry : ∀ e ∈ es, Scan.entry t.format e.held = some e)
include hs hm hshows hsettled hlists hentry

theorem after (h : s.Midway i dir t c es returned) {calls : List Call}
    (hcalls : ∀ call ∈ calls, call = .cursor i dir.call ∨ call.isAside i = true)
    (hnear : ∀ n ≤ calls.length,
      (s.after (calls.take n)).near? i dir = some (dir.start c.bounds))
    (hon : ∀ n < calls.length, calls[n]? = some (.cursor i dir.call) →
      (s.after (calls.take n)).runsOff i dir = false) :
    (s.after calls).Midway i dir t c es
      (returned ++ (s.repliesTo (Call.isStep i dir) calls).flatMap Reply.entries) := by
  induction calls generalizing s returned with
  | nil =>
    have hnone : (s.repliesTo (Call.isStep i dir) []).flatMap Reply.entries = [] := rfl
    rw [hnone, List.append_nil]
    exact h
  | cons call calls ih =>
    have hcalls' := fun call' hmem => hcalls call' (List.mem_cons_of_mem call hmem)
    have hnear' : ∀ n ≤ calls.length,
        ((s.run call).2.after (calls.take n)).near? i dir = some (dir.start c.bounds) :=
      fun n hn => hnear (n + 1) (Nat.succ_le_succ hn)
    have hon' : ∀ n < calls.length, calls[n]? = some (.cursor i dir.call) →
        ((s.run call).2.after (calls.take n)).runsOff i dir = false :=
      fun n hn => hon (n + 1) (Nat.succ_lt_succ hn)
    show ((s.run call).2.after calls).Midway i dir t c es _
    by_cases hstep : call.isStep i dir = true
    · rw [repliesTo_cons_of_pos hstep, List.flatMap_cons, ← List.append_assoc]
      obtain rfl := Call.isStep_iff.1 hstep
      have hnext := h.step hs hm hshows hsettled hlists hentry (hon 0 (Nat.succ_pos _) rfl)
      exact ih hnext hcalls' hnear' hon'
    · rw [repliesTo_cons_of_neg hstep]
      have hcall := (hcalls call List.mem_cons_self).resolve_left fun he =>
        hstep (Call.isStep_iff.2 he)
      have hnext := h.aside hm hcall (hnear 1 (Nat.succ_le_succ (Nat.zero_le _)))
      exact ih hnext hcalls' hnear' hon'

end Run

end Midway

theorem reply_clearBound {s : Session} {i : Nat} {c : Cursor} (hc : s.cursors[i]? = some c)
    (side : Option Side) : (s.run (.cursor i (.clearBound side))).1 = .done := by
  show (s.onCursor i (.clearBound side)).1 = _
  rw [onCursor_of_some hc]
  rfl

/-- A cursor that is not positioned walks over a table that nothing is written to, and of the updates
in it none is by another transaction that is prepared. Between the steps come changes of its bounds,
accepted or refused, that leave the bound that the walk starts from as it is, and calls that have
nothing to do with it. As long as no step has left the table, what the steps have returned is a front
part of all the entries that are visible within that bound, in typed order and each once. After every
change of bounds that is accepted the cursor holds the last of them again. And a step that finds nothing
is stopped by a bound that does not admit the next of them. -/
theorem walk_goes_on_across_bounds (f : Format) (paging : Paging) (past : List Call)
    (through : ∀ call ∈ past, call.isRaw = false) (room : Call.footprints past + 64 < 2 ^ 64) :
    let s := (fresh f paging).after past
    let log := (fresh f paging).log past
    ∀ i c dir, s.cursors[i]? = some c → c.position = .unpositioned →
      s.table.Uncontested (Scan.reader ⟨c, s.table⟩) →
      let reads := fun key =>
        s.table.ledger.resolve (Scan.reader ⟨c, s.table⟩) (log.updates (.typed f) key)
      ∃ es, Entries f (dir.unclip c.bounds) reads es ∧
        ∀ calls, (∀ call ∈ calls, call = .cursor i dir.call ∨ call.isAside i = true) →
          (∀ n ≤ calls.length, (s.after (calls.take n)).near? i dir = some (dir.start c.bounds)) →
          (∀ n < calls.length, calls[n]? = some (.cursor i dir.call) →
            (s.after (calls.take n)).runsOff i dir = false) →
          let t := s.after calls
          let returned := (s.repliesTo (Call.isStep i dir) calls).flatMap Reply.entries
          returned <+: dir.arrange es ∧
            (∀ change : CursorCall, change.isBounding = true → (∀ key, change ≠ .setKey key) →
              (t.run (.cursor i change)).1 = .done → ∀ e, returned.getLast? = some e →
              ((t.run (.cursor i change)).2.run (.cursor i .get)).1 =
                .holding (.ok e.key) (.ok e.value)) ∧
            ((t.run (.cursor i dir.call)).1 = .entry none →
              ∀ e, (dir.arrange es)[returned.length]? = some e → ∃ d, t.cursors[i]? = some d ∧
                dir.admits f d.bounds e.key.encode = false) := by
  intro s log i c dir hc hstart hsettled reads
  have hweight := weight_log_le (fresh f paging) [] past
  have hempty : Log.weight [] = 0 := rfl
  have h := (follows_fresh f paging).after through (by omega)
  rw [List.append_nil] at h hweight
  have hroom : log.weight + 64 < 2 ^ 64 := by
    show Log.weight ((fresh f paging).log past) + 64 < 2 ^ 64
    omega
  have hvalue : ∀ k v, reads k = .value v → log.updates (.typed f) k ≠ [] := by
    intro k v hv hnil
    dsimp only [reads] at hv
    rw [hnil] at hv
    cases hv
  obtain ⟨es, hes⟩ := h.table.exists_entries (by omega) hvalue (dir.unclip c.bounds)
  refine ⟨es, hes, ?_⟩
  intro calls hcalls hnear hon t returned
  have hshows : Scan.Shows ⟨c, s.table⟩ (ShownBy f reads) :=
    h.table.shows (by omega) hvalue fun r hr => Or.inr (congrArg _ (h.table.versions_eq hr))
  have hlists : Scan.Lists s.table.format (dir.unclip c.bounds) (ShownBy f reads) dir
      ((dir.arrange es).map Entry.held) := by
    rw [h.table.format]
    exact hes.lists_held dir
  have hentry : ∀ e ∈ dir.arrange es, Scan.entry s.table.format e.held = some e := by
    intro e he
    rw [h.table.format]
    exact hes.entry_held (Direction.mem_arrange.1 he)
  have hs := h.table.store.valid
  have hm := h.table.inMemory hroom
  have hbegin : s.Midway i dir s.table c (dir.arrange es) [] :=
    ⟨.refl s.table, hs, List.nil_prefix, c, hc, .begin hstart⟩
  have hmid : t.Midway i dir s.table c (dir.arrange es) returned :=
    hbegin.after hs hm hshows hsettled hlists hentry hcalls hnear hon
  refine ⟨hmid.isPrefix, fun change hchange hbound hdone e he =>
    hmid.holds hentry hchange hbound hdone he, fun hnone e he => ?_⟩
  rw [← h.table.format]
  exact hmid.not_admits_next hs hm hshows hsettled hlists hentry hnone he

/-- A table that has lost a key, and a cursor with a lower bound. -/
def fenced : List Call :=
  [.insert none (.int 1) [10], .insert none (.int 3) [30], .insert none (.int 5) [50],
    .insert none (.int 7) [70], .remove none (.int 5), .openCursor {},
    .cursor 0 (.setBound .lower (.int 2) true)]

/-- A walk during which an upper bound is set, stops it, is refused and is cleared. -/
def restless : List Call :=
  [.cursor 0 (.setBound .upper (.int 4) false), .cursor 0 .next, .cursor 0 .next, .store .evictAll,
    .cursor 0 (.setBound .upper (.int 1) true), .cursor 0 .next, .cursor 0 (.clearBound (some .upper)),
    .cursor 0 .next]

theorem walk_goes_on_across_bounds_restless :
    let s := (fresh ⟨[.int], by decide⟩ { codec := Snappy.codec, capacity := 2 }).after fenced
    let t := s.after restless
    let returned := (s.repliesTo (Call.isStep 0 .forward) restless).flatMap Reply.entries
    returned = [⟨.int 3, [30]⟩, ⟨.int 7, [70]⟩] ∧
      (∃ es : List Entry, es.Pairwise (fun x y => x.key.compare y.key = .lt) ∧ returned <+: es ∧
        ∀ v, ⟨.int 1, v⟩ ∉ es ∧ ⟨.int 5, v⟩ ∉ es) ∧
      ((t.run (.cursor 0 (.clearBound (some .upper)))).2.run (.cursor 0 .get)).1 =
        .holding (.ok (.int 7)) (.ok [70]) := by
  intro s t returned
  let c : Cursor :=
    { id := 1, options := {}, bounds := { lower := some ⟨Key.encode (.int 2), true⟩ } }
  obtain ⟨es, ⟨hsorted, hmem⟩, hwalk⟩ :=
    walk_goes_on_across_bounds ⟨[.int], by decide⟩ { codec := Snappy.codec, capacity := 2 } fenced
      (by decide) (by decide)
      0 c .forward (by decide +kernel) rfl (by decide +kernel)
  obtain ⟨hfirst, hholds, -⟩ :=
    hwalk restless (by decide +kernel) (by decide +kernel) (by decide +kernel)
  have hreturned : returned = [⟨.int 3, [30]⟩, ⟨.int 7, [70]⟩] := by decide +kernel
  refine ⟨hreturned, ⟨es, hsorted, hfirst, fun v => ⟨fun hv => ?_, fun hv => ?_⟩⟩, ?_⟩
  · have hin := ((hmem _ v).1 hv).2.2.1
    exact absurd hin (by decide +kernel)
  · have hreads := ((hmem _ v).1 hv).2.2.2
    have hremoved : s.table.ledger.resolve (Scan.reader ⟨c, s.table⟩)
        (Log.updates (.typed ⟨[.int], by decide⟩) (Key.encode (.int 5))
          ((fresh ⟨[.int], by decide⟩ { codec := Snappy.codec, capacity := 2 }).log fenced)) = .hidden := by
      decide +kernel
    rw [hremoved] at hreads
    cases hreads
  · have hcursor : t.cursors[0]? = some { c with place := .on ⟨Key.encode (.int 7), [70]⟩ } := by
      decide +kernel
    exact hholds (.clearBound (some .upper)) rfl (fun _ => nofun) (reply_clearBound hcursor _)
      ⟨.int 7, [70]⟩ (congrArg List.getLast? hreturned)

end Session

end Keyspan
