import Keyspan.Proofs.Compression.Literal
import Keyspan.Proofs.Cursor.Agreement
import Keyspan.Proofs.Session.Nearest
import Keyspan.Proofs.Session.Staged

/-!
A search does what the near search and the walk of the same range say it should.

It finds an entry just where the near search finds the key itself, and just where the walk comes past an
entry with this key. The three go their own ways: one seek after a look at the bounds, two hunts from the
key, and step after step from one bound to the other.
-/

set_option autoImplicit false
set_option relaxedAutoImplicit false

namespace Keyspan.Session

variable {s : Session} {i j : Nat} {c d : Cursor} {packed : Bytes} {es : List Entry}

/-- A cursor that stands nowhere walks to the end of its range, is not refused, and returns these
entries. -/
structure Drains (s : Session) (j : Nat) (d : Cursor) (es : List Entry) : Prop where
  opened : s.cursors[j]? = some d
  unpositioned : d.position = .unpositioned
  fits : d.options.releaseEvict = true → s.table.store.Fits
  walked : ∃ n, (s.run (.cursor j (.walk .forward n))).1 =
    .walked (es.map (fun e => .ok (some e)) ++ [.ok none])

private theorem run_walk (opened : s.cursors[j]? = some d) (dir : Direction) (n : Nat) :
    (s.run (.cursor j (.walk dir n))).1 = .walked (Scan.walk dir n ⟨d, s.table⟩).1 := by
  show (s.onCursor j (.walk dir n)).1 = _
  rw [onCursor_of_some opened]
  rfl

private theorem Drains.entries (h : s.Drains j d es) (hwalks : Scan.Walks ⟨d, s.table⟩) :
    Scan.Calm ⟨d, s.table⟩ .forward ∧ Scan.entries ⟨d, s.table⟩ .forward = es := by
  obtain ⟨n, hwalked⟩ := h.walked
  have hopen : Scan.isExhausted .forward ⟨d, s.table⟩ = false := by
    rw [Scan.isExhausted]
    dsimp only
    rw [h.unpositioned]
  rw [run_walk h.opened] at hwalked
  exact hwalks.entries_of_drained (n := n) hopen (Reply.walked.inj hwalked)

/-- What a search comes to beside the near search from the same state and the walk of a cursor that stands
nowhere, has the same bounds and reads as the same transaction, whatever calls have led there. The search
returns an entry just if the near search returns it as exact, and then both leave the cursor at the same
place. The near search is refused wherever the search is. And if the walk ends without having been refused,
the search returns an entry just if the walk has returned it and its key is the one that is staged; if the
walk has not returned any such, the search finds nothing and the cursor loses its place. -/
theorem search_agrees (f : Format) (paging : Paging) (calls : List Call)
    (reached : s = (fresh f paging).after calls)
    (memory : ∀ n < calls.length,
      ((fresh f paging).after (calls.take n)).table.store.InMemory)
    (unpacks : ∀ r ∈ s.table.store.records, ∃ key, f.unpackKey r.key = .ok key)
    (opened : s.cursors[i]? = some c)
    (unprepared : ∀ txn, c.txn = some txn → s.table.ledger.state txn ≠ .prepared)
    (unconfined : c.options.prefixSearch = false)
    (staged : c.staged = some packed) (room : packed.length < 2 ^ 64)
    (fits : c.options.releaseEvict = true → s.table.store.Fits) :
    let search := s.run (.cursor i .search)
    let near := s.run (.cursor i .searchNear)
    (∀ e, search.1 = .entry (some e) ↔ near.1 = .near (some (.exact, e))) ∧
    (∀ e, search.1 = .entry (some e) → search.2.cursors = near.2.cursors) ∧
    (∀ key, search.1 = .failed (.preparedConflict key) →
      near.1 = .failed (.preparedConflict key)) ∧
    ∃ wanted, f.packKey wanted = .ok packed ∧
      ∀ j d es, s.Drains j d es → d.bounds = c.bounds → d.txn = c.txn →
        (∀ e, search.1 = .entry (some e) ↔ e ∈ es ∧ e.key = wanted) ∧
        ((∀ e ∈ es, e.key ≠ wanted) →
          s.Yields i .search (.entry none) { c with place := {} }) := by
  have hempty := Table.sound_empty f paging
  have hsound : s.table.Sound f := reached ▸ sound_after hempty memory
  have hstages : s.StagesPacked f :=
    reached ▸ stagesPacked_after (stagesPacked_fresh f paging) hempty memory
  obtain ⟨wanted, hpack⟩ := hstages c (List.mem_of_getElem? opened) packed staged
  have hkey := (Format.unpackKey_packed hpack room).1
  obtain ⟨rfl, hordered, hvalid⟩ := hsound
  intro search near
  let scan : Scan := ⟨c, s.table⟩
  have hwalks : scan.Walks := ⟨hvalid, hordered, unpacks, fits, unprepared⟩
  have hyields (call : CursorCall) := yields_effect hvalid opened fits call
  have hreply (call : CursorCall) : (s.run (.cursor i call)).1 = (call.effect scan).1 ∧
      (s.run (.cursor i call)).2.cursors = s.cursors.set i (call.effect scan).2 := by
    obtain ⟨t, -, -, hrun⟩ := hyields call
    rw [hrun]
    exact ⟨rfl, rfl⟩
  obtain ⟨hsearch, hsearchEnd⟩ : search.1 = _ ∧ search.2.cursors = _ := hreply .search
  obtain ⟨hnear, hnearEnd⟩ : near.1 = _ ∧ near.2.cursors = _ := hreply .searchNear
  have hdrained {j : Nat} {d : Cursor} {es : List Entry} (h : s.Drains j d es)
      (hbounds : d.bounds = c.bounds) (htxn : d.txn = c.txn) :
      (∀ r, scan.sought? packed = some r → s.table.judge scan.reader r ≠ .conflict) ∧
      ∀ e, e ∈ es ∧ e.key = wanted ↔ ∃ r, scan.sought? packed = some r ∧ scan.reads? r = some e := by
    obtain ⟨hcalm, rfl⟩ := h.entries ⟨hvalid, hordered, unpacks, h.fits, htxn ▸ unprepared⟩
    refine ⟨fun r hr => ?_, fun e => hwalks.mem_entries_iff_sought? hkey hbounds htxn h.unpositioned⟩
    obtain ⟨⟨hmem, -⟩, hadmits, -⟩ := (Scan.sought?_eq_some_iff hvalid hordered).1 hr
    have hin : r ∈ Scan.within ⟨d, s.table⟩ .forward :=
      (hwalks.mem_within_iff hbounds h.unpositioned).2 ⟨hmem, hadmits⟩
    rw [← Scan.reader_congr (s := scan) htxn]
    exact hcalm r hin
  have hagrees : scan.Agrees packed := hwalks.agrees staged
    (Scan.leadOf_eq_none fun hprefix => absurd (unconfined.symm.trans hprefix) (by decide))
  cases hagrees with
  | @found r e hsought hread hsearched hneared =>
    rw [hsearched] at hsearch hsearchEnd
    rw [hneared] at hnear hnearEnd
    refine ⟨fun x => ?_, fun x _ => hsearchEnd.trans hnearEnd.symm, fun key hfailed => ?_, wanted, hpack,
      fun j d es h hbounds htxn => ?_⟩
    · rw [hsearch, hnear]
      simp
    · cases hsearch.symm.trans hfailed
    · obtain ⟨-, hentries⟩ := hdrained h hbounds htxn
      have hmem := (hentries e).2 ⟨r, hsought, hread⟩
      refine ⟨fun x => ?_, fun hno => absurd hmem.2 (hno e hmem.1)⟩
      rw [hsearch, hentries, hsought]
      simp [hread]
  | @refused r hsought hconflict hsearched hneared =>
    rw [hsearched] at hsearch
    rw [hneared] at hnear
    refine ⟨fun x => ?_, fun x hfound => ?_, fun key hfailed => ?_, wanted, hpack,
      fun j d es h hbounds htxn => ?_⟩
    · rw [hsearch, hnear]
      simp
    · cases hsearch.symm.trans hfound
    · exact hnear.trans (hsearch.symm.trans hfailed)
    · exact absurd hconflict ((hdrained h hbounds htxn).1 r hsought)
  | missed hsought hsearched hneared =>
    have hyielded := hyields .search
    rw [hsearched] at hsearch hyielded
    refine ⟨fun x => ?_, fun x hfound => ?_, fun key hfailed => ?_, wanted, hpack,
      fun j d es h hbounds htxn => ?_⟩
    · rw [hsearch, hnear]
      exact ⟨nofun, fun h => absurd h (hneared x)⟩
    · cases hsearch.symm.trans hfound
    · cases hsearch.symm.trans hfailed
    · refine ⟨fun x => ?_, fun _ => hyielded⟩
      rw [hsearch, (hdrained h hbounds htxn).2, hsought]
      simp

/-- Three cursors with the same exclusive bound, one searching past it, one searching for the bound itself,
and one that walks; and a prepared update before the bound. -/
def threefold : List Call :=
  [.insert none (.int 10) [1], .insert none (.int 20) [2], .insert none (.int 30) [3],
    .remove none (.int 30), .txn (.begin false), .insert (some 0) (.int 5) [9], .txn (.move 0 .prepared),
    .insert none (.int 40) [4], .openCursor {}, .openCursor {}, .openCursor {},
    .cursor 0 (.setBound .lower (.int 10) false), .cursor 1 (.setBound .lower (.int 10) false),
    .cursor 2 (.setBound .lower (.int 10) false), .cursor 0 (.setKey (.int 20)),
    .cursor 1 (.setKey (.int 10))]

theorem search_agrees_threefold :
    let f : Format := ⟨[.int], by decide⟩
    let s := (fresh f { codec := Snappy.codec }).after threefold
    let walking : Cursor :=
      { id := 3, options := {}, bounds := { lower := some ⟨Key.encode (.int 10), false⟩ } }
    let within : Cursor := { walking with id := 1, staged := Key.encode (.int 20) }
    let onBound : Cursor := { walking with id := 2, staged := Key.encode (.int 10) }
    s.cursors = [within, onBound, walking] ∧
      s.Drains 2 walking [⟨.int 20, [2]⟩, ⟨.int 40, [4]⟩] ∧
      (s.run (.cursor 0 .search)).1 = .entry (some ⟨.int 20, [2]⟩) ∧
      (s.run (.cursor 0 .searchNear)).1 = .near (some (.exact, ⟨.int 20, [2]⟩)) ∧
      s.Yields 1 .search (.entry none) onBound := by
  intro f s walking within onBound
  have hmemory : ∀ n < threefold.length,
      ((fresh f { codec := Snappy.codec }).after (threefold.take n)).table.store.InMemory := by
    decide +kernel
  have hunpacks : ∀ r ∈ s.table.store.records, ∃ key, f.unpackKey r.key = .ok key := by
    have hkeys : ∀ r ∈ s.table.store.records,
        f.unpackKey r.key ∈ [5, 10, 20, 30, 40].map fun n => Except.ok (Key.int n) := by
      decide +kernel
    intro r hr
    obtain ⟨n, -, hn⟩ := List.mem_map.1 (hkeys r hr)
    exact ⟨.int n, hn.symm⟩
  have hcursors : s.cursors = [within, onBound, walking] := by decide +kernel
  have hopened {i : Nat} {d : Cursor} (h : [within, onBound, walking][i]? = some d) :
      s.cursors[i]? = some d := by
    rw [hcursors]
    exact h
  have hwalk : (Scan.walk .forward 3 ⟨walking, s.table⟩).1 =
      [.ok (some ⟨.int 20, [2]⟩), .ok (some ⟨.int 40, [4]⟩), .ok none] := by
    decide +kernel
  have hroom : (Key.encode (.int 20)).length < 2 ^ 64 ∧ (Key.encode (.int 10)).length < 2 ^ 64 := by
    decide +kernel
  have hunpacked : f.unpackKey (Key.encode (.int 20)) = .ok (.int 20) ∧
      f.unpackKey (Key.encode (.int 10)) = .ok (.int 10) := by
    decide +kernel
  have hreached : s = (fresh f { codec := Snappy.codec }).after threefold := rfl
  clear_value s
  have hdrains : s.Drains 2 walking [⟨.int 20, [2]⟩, ⟨.int 40, [4]⟩] := by
    refine ⟨hopened rfl, rfl, (fun h => nomatch h), 3, ?_⟩
    rw [run_walk (hopened (d := walking) rfl), hwalk]
    rfl
  obtain ⟨hexact, -, -, wanted, hwanted, hscan⟩ :=
    @search_agrees s 0 within _ f { codec := Snappy.codec } threefold hreached hmemory hunpacks
      (hopened rfl)
      (fun _ h => nomatch h) rfl rfl hroom.1 (fun h => nomatch h)
  obtain ⟨-, -, -, wanted', hwanted', hscan'⟩ :=
    @search_agrees s 1 onBound _ f { codec := Snappy.codec } threefold hreached hmemory hunpacks
      (hopened rfl)
      (fun _ h => nomatch h) rfl rfl hroom.2 (fun h => nomatch h)
  have htwenty := (Format.unpackKey_packed hwanted hroom.1).1
  obtain rfl := Except.ok.inj (hunpacked.1.symm.trans htwenty)
  have hten := (Format.unpackKey_packed hwanted' hroom.2).1
  obtain rfl := Except.ok.inj (hunpacked.2.symm.trans hten)
  have hfound := ((hscan 2 walking _ hdrains rfl rfl).1 ⟨.int 20, [2]⟩).2 (by decide)
  exact ⟨hcursors, hdrains, hfound, (hexact _).1 hfound,
    (hscan' 2 walking _ hdrains rfl rfl).2 (by decide)⟩

end Keyspan.Session
