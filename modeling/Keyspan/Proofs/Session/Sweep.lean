import Keyspan.Proofs.Compression.Literal
import Keyspan.Proofs.Cursor.Sweep
import Keyspan.Proofs.Session.Neighbour

/-!
A bounded walk reads only its range.

What it counts says so: a record is read for each hidden one that a step goes over, for each entry that it
returns or is refused, and for each time that the bound ahead stops it. Records out of range do not show in
the counts, with the one exception of the record that the walk is stopped at.
-/

set_option autoImplicit false
set_option relaxedAutoImplicit false

namespace Keyspan.Session

variable {s : Session} {i : Nat} {c : Cursor} {dir : Direction}

/-- What a step reads and counts, unless it is refused or its cursor is stopped: the hidden records
between its start and its end, and the record at which it ends. And what a walk reads and counts that
starts from no place at all and meets no prepared update in range: it returns all that the reader reads in
range, and it reads each record in range once and at most one record out of range. -/
theorem walk_reads_range (f : Format) (paging : Paging) (calls : List Call)
    (reached : s = (fresh f paging).after calls)
    (memory : ∀ n < calls.length,
      ((fresh f paging).after (calls.take n)).table.store.InMemory)
    (unpacks : ∀ r ∈ s.table.store.records, ∃ key, f.unpackKey r.key = .ok key)
    (opened : s.cursors[i]? = some c)
    (unprepared : ∀ txn, c.txn = some txn → s.table.ledger.state txn ≠ .prepared)
    (fits : c.options.releaseEvict = true → s.table.store.Fits)
    (unstopped : ∀ last, c.position ≠ .exhausted dir last) :
    let scan : Scan := ⟨c, s.table⟩
    (∃ t reply p,
      s.run (.cursor i dir.call) =
        (reply, { s with table := t, cursors := s.cursors.set i { c with place := p } }) ∧
      scan.EndsAt dir (scan.finish? dir) reply p ∧
      let exits := (Scan.isExhausted dir ⟨{ c with place := p }, t⟩).toNat
      t.scans = s.table.scans.add dir (scan.between dir).length (c.startsAtBound dir f).toNat exits ∧
      t.store.visited =
        s.table.store.visited + (scan.between dir).length + exits + reply.isCaught.toNat) ∧
    let inRange := (dir.arrange s.table.store.records).filter fun r => c.bounds.admits f r.key
    let entries := inRange.filterMap scan.reads?
    (c.position = .unpositioned → (∀ r ∈ inRange, s.table.judge scan.reader r ≠ .conflict) →
      ∀ n, entries.length < n → ∃ t p out,
        s.run (.cursor i (.walk dir n)) =
          (.walked (entries.map (fun e => .ok (some e)) ++ [.ok none]),
            { s with table := t, cursors := s.cursors.set i { c with place := p } }) ∧
        Scan.Visits dir n scan (inRange ++ out) ∧
        out.length ≤ 1 ∧
        (∀ r ∈ out, r ∈ s.table.store.records ∧ c.bounds.admits f r.key = false) ∧
        t.store.visited = s.table.store.visited + inRange.length + out.length ∧
        t.scans = s.table.scans.add dir (inRange.countP scan.hides)
          (dir.start c.bounds).isSome.toNat out.length) := by
  have hsound : s.table.Sound f :=
    reached ▸ sound_after (Table.sound_empty f paging) memory
  obtain ⟨rfl, hordered, hvalid⟩ := hsound
  intro scan
  have hopen : scan.isExhausted dir = false := by
    rw [Bool.eq_false_iff]
    intro hstopped
    obtain ⟨last, hlast⟩ := Scan.isExhausted_iff.1 hstopped
    exact unstopped last hlast
  constructor
  · obtain ⟨t, made, hstep⟩ := Scan.step_counted (s := scan) dir hvalid fits unprepared hopen
    obtain ⟨reply, p, htold, hends, hexits, hhanded⟩ :=
      Scan.endsAt_finish (s := scan) hordered dir unpacks hopen
    have hrun := run_step opened hstep.run
    rw [htold] at hrun
    refine ⟨t, reply, p, hrun, hends, ?_, ?_⟩
    · rw [hstep.scans, hexits, Scan.passed_eq_between hvalid hordered]
      rfl
    · rw [hstep.visited, hhanded, hexits, Scan.passed_eq_between hvalid hordered]
      simp only [Nat.add_assoc]
      rfl
  · intro inRange entries hp hcalm n hn
    have hin : scan.within dir = inRange :=
      Scan.within_of_unpositioned (s := scan) hvalid hordered dir hp
    have hentries : scan.entries dir = entries := by
      rw [Scan.entries, hin]
    have hwalks : scan.Walks := ⟨hvalid, hordered, unpacks, fits, unprepared⟩
    obtain ⟨t, p, hsweeps⟩ :=
      hwalks.exists_sweeps hopen (by rwa [Scan.Calm, hin]) (by rwa [hentries])
    obtain ⟨hone, hout⟩ := Scan.fence_spec scan dir
    refine ⟨t, p, scan.fence dir, ?_, ?_, hone, hout, ?_, ?_⟩
    · show s.onCursor i (.walk dir n) = _
      have hcall : (CursorCall.walk dir n).run scan =
          (.walked (Scan.walk dir n scan).1, (Scan.walk dir n scan).2) := rfl
      rw [onCursor_of_some opened, hcall, hsweeps.walk, hentries]
    · rw [← hin]
      exact hsweeps.visits
    · rw [hsweeps.visited, hin, List.length_append, Nat.add_assoc]
    · rw [hsweeps.scans, Scan.skips, hin, Scan.startsAtBound_of_unpositioned dir hp]

/-- A removed key, a cursor with both bounds set, and one that its lower bound has overtaken. -/
def overtaken : List Call :=
  [.insert none (.int 10) [1], .insert none (.int 20) [2], .insert none (.int 30) [3],
    .insert none (.int 40) [4], .insert none (.int 50) [5], .insert none (.int 60) [6],
    .remove none (.int 30), .openCursor {}, .openCursor {},
    .cursor 0 (.setBound .lower (.int 20) true), .cursor 0 (.setBound .upper (.int 50) false),
    .cursor 1 .next, .cursor 1 (.setBound .lower (.int 20) false)]

theorem walk_reads_range_overtaken :
    let f : Format := ⟨[.int], by decide⟩
    let s := (fresh f { codec := Snappy.codec }).after overtaken
    let bounded : Cursor := { id := 1, options := {}, bounds := {
      lower := some ⟨Key.encode (.int 20), true⟩, upper := some ⟨Key.encode (.int 50), false⟩ } }
    let behind : Cursor := { id := 2, options := {}, bounds := {
      lower := some ⟨Key.encode (.int 20), false⟩ }, place := .on ⟨Key.encode (.int 10), [1]⟩ }
    s.cursors = [bounded, behind] ∧
      (∃ t p, s.run (.cursor 1 .next) = (.entry (some ⟨.int 40, [4]⟩),
          { s with table := t, cursors := s.cursors.set 1 { behind with place := p } }) ∧
        t.scans = s.table.scans.add .forward 1 1 0 ∧
        t.store.visited = s.table.store.visited + 2) ∧
      ∃ t p, ∃ out : List Record, s.run (.cursor 0 (.walk .forward 3)) =
          (.walked [.ok (some ⟨.int 20, [2]⟩), .ok (some ⟨.int 40, [4]⟩), .ok none],
            { s with table := t, cursors := s.cursors.set 0 { bounded with place := p } }) ∧
        out.length ≤ 1 ∧
        (∀ r ∈ out, r ∈ s.table.store.records ∧ bounded.bounds.admits f r.key = false) ∧
        t.store.visited = s.table.store.visited + 3 + out.length ∧
        t.scans = s.table.scans.add .forward 1 1 out.length := by
  intro f s bounded behind
  have hmemory : ∀ n < overtaken.length,
      ((fresh f { codec := Snappy.codec }).after (overtaken.take n)).table.store.InMemory := by
    decide +kernel
  have hunpacks : ∀ r ∈ s.table.store.records, ∃ key, f.unpackKey r.key = .ok key := by
    have hkeys : ∀ r ∈ s.table.store.records,
        f.unpackKey r.key ∈ [10, 20, 30, 40, 50, 60].map fun n => Except.ok (Key.int n) := by
      decide +kernel
    intro r hr
    obtain ⟨n, -, hn⟩ := List.mem_map.1 (hkeys r hr)
    exact ⟨.int n, hn.symm⟩
  have hcursors : s.cursors = [bounded, behind] := by decide +kernel
  have hopened {i : Nat} {d : Cursor} (h : [bounded, behind][i]? = some d) :
      s.cursors[i]? = some d := by
    rw [hcursors]
    exact h
  have hfinish : Scan.finish? ⟨behind, s.table⟩ .forward =
      some ⟨Key.encode (.int 40), [⟨4, some [4]⟩]⟩ := by
    decide +kernel
  have hjudged : s.table.judge (Scan.reader ⟨behind, s.table⟩)
      ⟨Key.encode (.int 40), [⟨4, some [4]⟩]⟩ = .value [4] := by
    decide +kernel
  have honward : Scan.onward ⟨behind, s.table⟩ .forward
      ⟨Key.encode (.int 40), [⟨4, some [4]⟩]⟩ = true := by
    decide +kernel
  have hbetween : (Scan.between ⟨behind, s.table⟩ .forward).length = 1 := by decide +kernel
  have hseeds : behind.startsAtBound .forward f = true := by decide +kernel
  have hread : s.table.format.unpackKey (Key.encode (.int 40)) = .ok (.int 40) := by decide +kernel
  let inRange := (Direction.forward.arrange s.table.store.records).filter fun r =>
    bounded.bounds.admits f r.key
  have hentries : inRange.filterMap (Scan.reads? ⟨bounded, s.table⟩) =
      [⟨.int 20, [2]⟩, ⟨.int 40, [4]⟩] := by
    decide +kernel
  have hcalm : ∀ r ∈ inRange, s.table.judge (Scan.reader ⟨bounded, s.table⟩) r ≠ .conflict := by
    decide +kernel
  have hlength : inRange.length = 3 := by decide +kernel
  have hhidden : inRange.countP (Scan.hides ⟨bounded, s.table⟩) = 1 := by decide +kernel
  have hreached : s = (fresh f { codec := Snappy.codec }).after overtaken := rfl
  clear_value s
  obtain ⟨⟨t, reply, p, hrun, hends, hscans, hvisited⟩, -⟩ :=
    @walk_reads_range s 1 behind .forward f { codec := Snappy.codec } overtaken hreached hmemory
      hunpacks (hopened rfl) (fun _ h => nomatch h) (fun h => nomatch h) (fun _ h => nomatch h)
  obtain ⟨-, hdrain⟩ :=
    @walk_reads_range s 0 bounded .forward f { codec := Snappy.codec } overtaken hreached hmemory
      hunpacks (hopened rfl) (fun _ h => nomatch h) (fun h => nomatch h) (fun _ h => nomatch h)
  refine ⟨hcursors, ?_, ?_⟩
  · rw [hbetween, hseeds] at hscans
    rw [hbetween] at hvisited
    rw [hfinish] at hends
    cases hends with
    | barred past => cases honward.symm.trans past
    | refused _ conflict => cases hjudged.symm.trans conflict
    | found _ value unpacks =>
      obtain rfl := Outcome.value.inj (hjudged.symm.trans value)
      obtain rfl := Except.ok.inj (hread.symm.trans unpacks)
      exact ⟨t, _, hrun, hscans, hvisited⟩
  · obtain ⟨t, p, out, hrun, -, hone, hout, hvisited, hscans⟩ := hdrain rfl hcalm 3 (by
      show (inRange.filterMap (Scan.reads? ⟨bounded, s.table⟩)).length < 3
      rw [hentries]
      decide)
    refine ⟨t, p, out, ?_, hone, hout, ?_, ?_⟩
    · rw [hrun]
      show (Reply.walked ((inRange.filterMap (Scan.reads? ⟨bounded, s.table⟩)).map _ ++ _), _) = _
      rw [hentries]
      rfl
    · rw [hvisited]
      show _ + inRange.length + _ = _
      rw [hlength]
    · rw [hscans]
      show s.table.scans.add _ (inRange.countP (Scan.hides ⟨bounded, s.table⟩)) _ _ = _
      rw [hhidden]
      rfl

end Keyspan.Session
