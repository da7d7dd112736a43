import Keyspan.Proofs.Compression.Literal
import Keyspan.Proofs.Cursor.Nearest
import Keyspan.Proofs.Session.Peers
import Keyspan.Proofs.Session.Sound

/-!
What a near search does, wherever its cursor stands and whichever key is staged.

It lands on the nearest record that the reader may read, the larger ones first, or is refused for the
nearest one because of a prepared update of its key, or finds nothing. A record outside the bounds is
neither found nor refused.
-/

set_option autoImplicit false
set_option relaxedAutoImplicit false

namespace Keyspan

namespace Session

/-- A call of a cursor replies so and leaves the cursor so. It changes nothing else but what was counted
and where pages are. -/
def Yields (s : Session) (i : Nat) (call : CursorCall) (reply : Reply) (c : Cursor) : Prop :=
  ∃ t, s.table.Alike t ∧ t.nextCursor = s.table.nextCursor ∧
    s.run (.cursor i call) = (reply, { s with table := t, cursors := s.cursors.set i c })

/-- A near search for the key does what this record has it do. -/
inductive Nears (s : Session) (f : Format) (i : Nat) (c : Cursor) (key : Bytes) :
    Option Record → Prop
  /-- It returns a record that the reader may read, and leaves the cursor on it. -/
  | found {r : Record} {b : Bytes} {k : Key}
    (value : s.table.judge (Scan.reader ⟨c, s.table⟩) r = .value b)
    (unpacks : f.unpackKey r.key = .ok k)
    (yields : s.Yields i .searchNear
      (.near (some (.ofOrdering ((KeyOrder.typed f).compare r.key key), ⟨k, b⟩)))
      { c with place := .on ⟨r.key, b⟩ }) : Nears s f i c key (some r)
  /-- It is refused for a record with a prepared update, and leaves the cursor as it was. -/
  | refused {r : Record}
    (conflict : s.table.judge (Scan.reader ⟨c, s.table⟩) r = .conflict)
    (yields : s.Yields i .searchNear (.failed (.preparedConflict (f.describe r.key))) c) :
    Nears s f i c key (some r)
  /-- Without a record it finds nothing, and the cursor loses its place. -/
  | nothing
    (yields : s.Yields i .searchNear (.near none)
      { c with place := { position := .unpositioned, current := none, parked := none } }) :
    Nears s f i c key none

variable {s : Session} {i : Nat} {c : Cursor} {key : Bytes} {decides : Option Record}

theorem yields_effect (hs : s.table.store.Valid)
    (opened : s.cursors[i]? = some c) (fits : c.options.releaseEvict = true → s.table.store.Fits)
    (call : CursorCall) :
    s.Yields i call (call.effect ⟨c, s.table⟩).1 (call.effect ⟨c, s.table⟩).2 := by
  obtain ⟨t, hst, -, hrun⟩ := CursorCall.run_eq_effect (s := ⟨c, s.table⟩) call hs fits
  have hnext := call.nextCursor_run ⟨c, s.table⟩
  rw [hrun] at hnext
  refine ⟨t, hst, hnext, ?_⟩
  show s.onCursor i call = _
  rw [onCursor_of_some opened, hrun]

theorem nears_of_neared (hs : s.table.store.Valid)
    (unpacks : ∀ r ∈ s.table.store.records, ∃ k, s.table.format.unpackKey r.key = .ok k)
    (opened : s.cursors[i]? = some c) (fits : c.options.releaseEvict = true → s.table.store.Fits)
    (hdecides : ∀ r, decides = some r →
      r ∈ s.table.store.records ∧ s.table.judge (Scan.reader ⟨c, s.table⟩) r ≠ .hidden)
    (h : Scan.neared ⟨c, s.table⟩ = Scan.nears ⟨c, s.table⟩ key decides) :
    s.Nears s.table.format i c key decides := by
  have hyields := yields_effect hs opened fits .searchNear
  rw [CursorCall.effect, h, Scan.nears] at hyields
  cases decides with
  | none => exact .nothing hyields
  | some r =>
    obtain ⟨hmem, hno⟩ := hdecides r rfl
    cases hj : s.table.judge (Scan.reader ⟨c, s.table⟩) r with
    | value b =>
      obtain ⟨k, hk⟩ := unpacks r hmem
      simp only [Scan.settled, hj, Scan.landed, Scan.landing, hk] at hyields
      exact .found hj hk hyields
    | conflict =>
      simp only [Scan.settled, hj] at hyields
      exact .refused hj hyields
    | hidden => exact absurd hj hno

namespace Nears

variable {f : Format} {r : Record}

theorem yields_of_value (h : s.Nears f i c key (some r)) {b : Bytes} {k : Key}
    (hj : s.table.judge (Scan.reader ⟨c, s.table⟩) r = .value b) (hk : f.unpackKey r.key = .ok k) :
    s.Yields i .searchNear
      (.near (some (.ofOrdering ((KeyOrder.typed f).compare r.key key), ⟨k, b⟩)))
      { c with place := .on ⟨r.key, b⟩ } := by
  cases h with
  | found hj' hk' hyields =>
    obtain rfl := Outcome.value.inj (hj.symm.trans hj')
    obtain rfl := Except.ok.inj (hk.symm.trans hk')
    exact hyields
  | refused hj' => cases hj.symm.trans hj'

theorem yields_of_conflict (h : s.Nears f i c key (some r))
    (hj : s.table.judge (Scan.reader ⟨c, s.table⟩) r = .conflict) :
    s.Yields i .searchNear (.failed (.preparedConflict (f.describe r.key))) c := by
  cases h with
  | found hj' => cases hj.symm.trans hj'
  | refused _ hyields => exact hyields

theorem conflict_of_failed (h : s.Nears f i c key decides) {e : Error}
    (hfailed : (s.run (.cursor i .searchNear)).1 = .failed e) :
    ∃ r, decides = some r ∧ s.table.judge (Scan.reader ⟨c, s.table⟩) r = .conflict ∧
      e = .preparedConflict (f.describe r.key) := by
  have hreply : ∀ {reply : Reply} {d : Cursor}, s.Yields i .searchNear reply d →
      reply = .failed e := by
    rintro reply d ⟨t, -, -, hrun⟩
    rw [← hfailed, hrun]
  cases h with
  | found _ _ hyields => cases hreply hyields
  | refused hj hyields => exact ⟨_, rfl, hj, (Reply.failed.inj (hreply hyields)).symm⟩
  | nothing hyields => cases hreply hyields

end Nears

/-- What a near search of a cursor does, whatever calls have led to where it stands, unless it is confined
to a leading part. The records are in ascending order. The record that decides the search is the first
one, among those that are not smaller than the staged key in ascending order and then among the smaller
ones in descending order, that both bounds admit and that is not hidden from the reader. The search
returns it, and tells how it compares with the staged key, or fails before a prepared update of it; and it
fails for no other reason. -/
theorem searchNear_decided (f : Format) (paging : Paging) (calls : List Call)
    (reached : s = (fresh f paging).after calls)
    (memory : ∀ n < calls.length,
      ((fresh f paging).after (calls.take n)).table.store.InMemory)
    (unpacks : ∀ r ∈ s.table.store.records, ∃ k, f.unpackKey r.key = .ok k)
    (opened : s.cursors[i]? = some c)
    (unprepared : ∀ txn, c.txn = some txn → s.table.ledger.state txn ≠ .prepared)
    (unconfined : c.options.prefixSearch = true → ¬ f.IsSlice)
    (staged : c.staged = some key)
    (fits : c.options.releaseEvict = true → s.table.store.Fits) :
    (s.table.store.records.Pairwise fun x y => (KeyOrder.typed f).compare x.key y.key = .lt) ∧
    s.Nears f i c key (Scan.nearest? ⟨c, s.table⟩ key) ∧
    ∀ e, (s.run (.cursor i .searchNear)).1 = .failed e →
      ∃ r ∈ s.table.store.records, c.bounds.admits f r.key = true ∧
        s.table.judge (Scan.reader ⟨c, s.table⟩) r = .conflict ∧
        e = .preparedConflict (f.describe r.key) := by
  have hsound : s.table.Sound f :=
    reached ▸ sound_after (Table.sound_empty f paging) memory
  obtain ⟨rfl, hordered, hvalid⟩ := hsound
  have hneared := Scan.neared_eq_nears (s := ⟨c, s.table⟩) hordered hvalid unprepared staged
    (Scan.leadOf_eq_none unconfined)
  have hnears : s.Nears s.table.format i c key (Scan.nearest? ⟨c, s.table⟩ key) :=
    nears_of_neared hvalid unpacks opened fits
      (fun r hr => ⟨(Scan.mem_nearest? hr).1, (Scan.mem_nearest? hr).2.2⟩) hneared
  refine ⟨hordered ▸ hvalid.ascending, hnears, fun e he => ?_⟩
  obtain ⟨r, hr, hj, he⟩ := hnears.conflict_of_failed he
  exact ⟨r, (Scan.mem_nearest? hr).1, (Scan.mem_nearest? hr).2.1, hj, he⟩

/-- A removed record, a prepared update, and four cursors: on the removed key, past an upper bound, before
the prepared update, and before a lower bound with nothing behind it. -/
def gaps : List Call :=
  [.insert none (.int 10) [1], .insert none (.int 20) [2], .remove none (.int 20),
    .insert none (.int 30) [3], .openCursor {}, .openCursor {}, .openCursor {},
    .openCursor { prefixSearch := true }, .cursor 3 .next, .txn (.begin false),
    .insert (some 0) (.int 40) [4], .txn (.move 0 .prepared), .cursor 0 (.setKey (.int 20)),
    .cursor 1 (.setKey (.int 60)), .cursor 1 (.setBound .upper (.int 30) false),
    .cursor 2 (.setKey (.int 35)), .cursor 3 (.setKey (.int 35)),
    .cursor 3 (.setBound .lower (.int 40) false)]

theorem searchNear_decided_gaps :
    let f : Format := ⟨[.int], by decide⟩
    let s := (fresh f { codec := Snappy.codec }).after gaps
    let ten : Held := ⟨Key.encode (.int 10), [1]⟩
    let thirty : Held := ⟨Key.encode (.int 30), [3]⟩
    let c : Cursor := { id := 1, options := {}, staged := Key.encode (.int 20) }
    let past : Cursor := { c with
      id := 2
      staged := Key.encode (.int 60)
      bounds := { upper := some ⟨Key.encode (.int 30), false⟩ } }
    let before : Cursor := { c with id := 3, staged := Key.encode (.int 35) }
    let outside : Cursor := { before with
      id := 4
      options := { prefixSearch := true }
      bounds := { lower := some ⟨Key.encode (.int 40), false⟩ }
      place := .on ten }
    s.cursors = [c, past, before, outside] ∧
      s.Yields 0 .searchNear (.near (some (.larger, ⟨.int 30, [3]⟩))) { c with place := .on thirty } ∧
      s.Yields 1 .searchNear (.near (some (.smaller, ⟨.int 10, [1]⟩))) { past with place := .on ten } ∧
      s.Yields 2 .searchNear (.failed (.preparedConflict "40")) before ∧
      s.Yields 3 .searchNear (.near none) { outside with place := {} } := by
  intro f s ten thirty c past before outside
  have hmemory : ∀ n < gaps.length,
      ((fresh f { codec := Snappy.codec }).after (gaps.take n)).table.store.InMemory := by
    decide +kernel
  have hunpacks : ∀ r ∈ s.table.store.records, ∃ k, f.unpackKey r.key = .ok k := by
    have hkeys : ∀ r ∈ s.table.store.records,
        f.unpackKey r.key ∈ [10, 20, 30, 40].map fun n => Except.ok (Key.int n) := by
      decide +kernel
    intro r hr
    obtain ⟨n, -, hn⟩ := List.mem_map.1 (hkeys r hr)
    exact ⟨.int n, hn.symm⟩
  have hcursors : s.cursors = [c, past, before, outside] := by decide +kernel
  have hnears {i : Nat} {d : Cursor} {n : Int64} (hd : [c, past, before, outside][i]? = some d)
      (htxn : d.txn = none) (hstaged : d.staged = some (Key.encode (.int n)))
      (hrelease : d.options.releaseEvict = false) :
      s.Nears f i d (Key.encode (.int n)) (Scan.nearest? ⟨d, s.table⟩ (Key.encode (.int n))) := by
    have hopened : s.cursors[i]? = some d := by
      rw [hcursors]
      exact hd
    have hunprepared : ∀ txn, d.txn = some txn → s.table.ledger.state txn ≠ .prepared := by
      intro txn htxn'
      rw [htxn] at htxn'
      cases htxn'
    have hall := @searchNear_decided s i d _ f { codec := Snappy.codec } gaps rfl hmemory hunpacks
      hopened hunprepared
      (fun _ => by decide) hstaged (fun h => by rw [hrelease] at h; cases h)
    exact hall.2.1
  have hfirst := hnears (i := 0) (d := c) rfl rfl rfl rfl
  have hsecond := hnears (i := 1) (d := past) rfl rfl rfl rfl
  have hthird := hnears (i := 2) (d := before) rfl rfl rfl rfl
  have hfourth := hnears (i := 3) (d := outside) rfl rfl rfl rfl
  have hnearest :
      (Scan.nearest? ⟨c, s.table⟩ (Key.encode (.int 20)) =
        some ⟨Key.encode (.int 30), [⟨4, some [3]⟩]⟩) ∧
      (Scan.nearest? ⟨past, s.table⟩ (Key.encode (.int 60)) =
        some ⟨Key.encode (.int 10), [⟨1, some [1]⟩]⟩) ∧
      (Scan.nearest? ⟨before, s.table⟩ (Key.encode (.int 35)) =
        some ⟨Key.encode (.int 40), [⟨5, some [4]⟩]⟩) ∧
      Scan.nearest? ⟨outside, s.table⟩ (Key.encode (.int 35)) = none := by
    decide +kernel
  have hjudged :
      s.table.judge (Scan.reader ⟨c, s.table⟩) ⟨Key.encode (.int 30), [⟨4, some [3]⟩]⟩ = .value [3] ∧
      s.table.judge (Scan.reader ⟨past, s.table⟩) ⟨Key.encode (.int 10), [⟨1, some [1]⟩]⟩ =
        .value [1] ∧
      s.table.judge (Scan.reader ⟨before, s.table⟩) ⟨Key.encode (.int 40), [⟨5, some [4]⟩]⟩ =
        .conflict := by
    decide +kernel
  rw [hnearest.1] at hfirst
  rw [hnearest.2.1] at hsecond
  rw [hnearest.2.2.1] at hthird
  rw [hnearest.2.2.2] at hfourth
  refine ⟨hcursors, hfirst.yields_of_value hjudged.1 (by decide +kernel),
    hsecond.yields_of_value hjudged.2.1 (by decide +kernel),
    hthird.yields_of_conflict hjudged.2.2, ?_⟩
  cases hfourth with
  | nothing hyields => exact hyields

end Session

end Keyspan
