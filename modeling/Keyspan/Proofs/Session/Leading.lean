import Keyspan.Proofs.Compression.Literal
import Keyspan.Proofs.Cursor.Leading
import Keyspan.Proofs.Session.Nearest
import Keyspan.Proofs.Session.Staged

/-!
What a near search does that stays with the keys that start as the staged one does.

It comes to the same as going through all records and keeping those within the bounds whose keys start
with the bytes of the staged one. That it ends at the first key that does not, and never looks at smaller
ones, makes no difference.
-/

set_option autoImplicit false
set_option relaxedAutoImplicit false

namespace Keyspan.Session

variable {s : Session} {i : Nat} {c : Cursor} {key : Bytes}

/-- What a near search of a cursor does that is confined to leading parts, whatever calls have led to where
it stands. The staged key is a packed key, of a length that memory can hold, and the record that decides
the search is the least that both bounds admit, whose key starts with the bytes of the staged one, and that
is not hidden from the reader. The search returns it, and tells whether it is the staged key or a larger
one, or fails before a prepared update of it; and it fails for no other reason. -/
theorem searchNear_leading (f : Format) (paging : Paging) (calls : List Call) (slice : f.IsSlice)
    (reached : s = (fresh f paging).after calls)
    (memory : ∀ n < calls.length,
      ((fresh f paging).after (calls.take n)).table.store.InMemory)
    (unpacks : ∀ r ∈ s.table.store.records, ∃ k, f.unpackKey r.key = .ok k)
    (opened : s.cursors[i]? = some c)
    (unprepared : ∀ txn, c.txn = some txn → s.table.ledger.state txn ≠ .prepared)
    (confined : c.options.prefixSearch = true)
    (staged : c.staged = some key) (room : key.length < 2 ^ 64)
    (fits : c.options.releaseEvict = true → s.table.store.Fits) :
    ∃ wanted lead, f.packKey wanted = .ok key ∧ wanted.lead? = some lead ∧
      f.leadField? key = some lead ∧
      (s.table.store.records.Pairwise fun x y =>
        (KeyOrder.typed f).compare x.key y.key = .lt) ∧
      s.Nears f i c key (Scan.leading? ⟨c, s.table⟩ lead) ∧
      (∀ r, Scan.leading? ⟨c, s.table⟩ lead = some r →
        (KeyOrder.typed f).compare r.key key ≠ .lt) ∧
      ∀ e, (s.run (.cursor i .searchNear)).1 = .failed e →
        ∃ r ∈ s.table.store.records, c.bounds.admits f r.key = true ∧
          f.startsWith lead r.key = true ∧
          s.table.judge (Scan.reader ⟨c, s.table⟩) r = .conflict ∧
          e = .preparedConflict (f.describe r.key) := by
  have hempty := Table.sound_empty f paging
  have hsound : s.table.Sound f := reached ▸ sound_after hempty memory
  have hstages : s.StagesPacked f :=
    reached ▸ stagesPacked_after (stagesPacked_fresh f paging) hempty memory
  obtain ⟨wanted, hpack⟩ := hstages c (List.mem_of_getElem? opened) key staged
  obtain ⟨lead, hwanted, hlead⟩ := Format.leadField?_packed slice hpack room
  obtain ⟨rfl, hordered, hvalid⟩ := hsound
  have hneared := Scan.neared_eq_nears_leading (s := ⟨c, s.table⟩) hordered slice hlead unpacks hvalid
    unprepared confined staged
  have hnears : s.Nears s.table.format i c key (Scan.leading? ⟨c, s.table⟩ lead) :=
    nears_of_neared hvalid unpacks opened fits
      (fun r hr => ⟨(Scan.mem_leading? hr).1, (Scan.mem_leading? hr).2.2.2⟩) hneared
  refine ⟨wanted, lead, hpack, hwanted, hlead, hordered ▸ hvalid.ascending, hnears, fun r hr => ?_,
    fun e he => ?_⟩
  · obtain ⟨hmem, -, hstarts, -⟩ := Scan.mem_leading? hr
    obtain ⟨k, hk⟩ := unpacks r hmem
    rw [← Format.hasLead_eq_startsWith slice hk] at hstarts
    exact Format.not_lt_of_hasLead slice hlead hstarts
  · obtain ⟨r, hr, hj, he⟩ := hnears.conflict_of_failed he
    obtain ⟨hmem, hadmits, hstarts, -⟩ := Scan.mem_leading? hr
    exact ⟨r, hmem, hadmits, hstarts, hj, he⟩

/-- A removed record, a prepared update, and three cursors: on the removed key, on one that nothing starts
with, and on the empty key that everything starts with. -/
def headings : List Call :=
  [.insert none (.string "ab") [1], .remove none (.string "ab"), .insert none (.string "abc") [2],
    .txn (.begin false), .insert (some 0) (.string "b") [3], .txn (.move 0 .prepared),
    .openCursor { prefixSearch := true }, .openCursor { prefixSearch := true },
    .openCursor { prefixSearch := true }, .cursor 0 (.setKey (.string "ab")), .cursor 1 .next,
    .cursor 1 (.setKey (.string "abx")), .cursor 2 (.setKey (.string "")),
    .cursor 2 (.setBound .lower (.string "abc") false)]

theorem searchNear_leading_headings :
    let f : Format := ⟨[.string], by decide⟩
    let s := (fresh f { codec := Snappy.codec }).after headings
    let abc : Held := ⟨Key.encode (.string "abc"), [2]⟩
    let c : Cursor :=
      { id := 1, options := { prefixSearch := true }, staged := Key.encode (.string "ab") }
    let astray : Cursor := { c with
      id := 2
      place := .on abc
      staged := Key.encode (.string "abx") }
    let empty : Cursor := { c with
      id := 3
      bounds := { lower := some ⟨abc.key, false⟩ }
      staged := Key.encode (.string "") }
    s.cursors = [c, astray, empty] ∧
      s.Yields 0 .searchNear (.near (some (.larger, ⟨.string "abc", [2]⟩)))
        { c with place := .on abc } ∧
      s.Yields 1 .searchNear (.near none) { astray with place := {} } ∧
      s.Yields 2 .searchNear (.failed (.preparedConflict "\"b\"")) empty := by
  intro f s abc c astray empty
  have hmemory : ∀ n < headings.length,
      ((fresh f { codec := Snappy.codec }).after (headings.take n)).table.store.InMemory := by
    decide +kernel
  have hunpacks : ∀ r ∈ s.table.store.records, ∃ k, f.unpackKey r.key = .ok k := by
    have hkeys : ∀ r ∈ s.table.store.records,
        f.unpackKey r.key ∈ ["ab", "abc", "b"].map fun t => Except.ok (Key.string t) := by
      decide +kernel
    intro r hr
    obtain ⟨t, -, ht⟩ := List.mem_map.1 (hkeys r hr)
    exact ⟨.string t, ht.symm⟩
  have hcursors : s.cursors = [c, astray, empty] := by decide +kernel
  have hnears {i : Nat} {d : Cursor} {k : Bytes} {l : Bytes}
      (hd : [c, astray, empty][i]? = some d) (htxn : d.txn = none) (hstaged : d.staged = some k)
      (hconfined : d.options = { prefixSearch := true }) (hroom : k.length < 2 ^ 64)
      (hl : f.leadField? k = some l) : s.Nears f i d k (Scan.leading? ⟨d, s.table⟩ l) := by
    have hopened : s.cursors[i]? = some d := by
      rw [hcursors]
      exact hd
    have hunprepared : ∀ txn, d.txn = some txn → s.table.ledger.state txn ≠ .prepared := by
      intro txn htxn'
      rw [htxn] at htxn'
      cases htxn'
    obtain ⟨wanted, lead, -, -, hlead, -, hdecided, -⟩ :=
      @searchNear_leading s i d k f { codec := Snappy.codec } headings (Or.inl rfl) rfl hmemory
        hunpacks hopened hunprepared (by rw [hconfined]) hstaged hroom
        (fun h => by rw [hconfined] at h; cases h)
    obtain rfl := Option.some.inj (hl.symm.trans hlead)
    exact hdecided
  have hfirst := hnears (i := 0) (d := c) rfl rfl rfl rfl (by decide +kernel)
    (show f.leadField? (Key.encode (.string "ab")) = some [97, 98] by decide +kernel)
  have hsecond := hnears (i := 1) (d := astray) rfl rfl rfl rfl (by decide +kernel)
    (show f.leadField? (Key.encode (.string "abx")) = some [97, 98, 120] by decide +kernel)
  have hthird := hnears (i := 2) (d := empty) rfl rfl rfl rfl (by decide +kernel)
    (show f.leadField? (Key.encode (.string "")) = some [] by decide +kernel)
  have hleading :
      Scan.leading? ⟨c, s.table⟩ [97, 98] = some ⟨abc.key, [⟨3, some [2]⟩]⟩ ∧
      Scan.leading? ⟨astray, s.table⟩ [97, 98, 120] = none ∧
      Scan.leading? ⟨empty, s.table⟩ [] = some ⟨Key.encode (.string "b"), [⟨4, some [3]⟩]⟩ := by
    decide +kernel
  have hvalue : s.table.judge (Scan.reader ⟨c, s.table⟩) ⟨abc.key, [⟨3, some [2]⟩]⟩ = .value [2] := by
    decide +kernel
  have hconflict : s.table.judge (Scan.reader ⟨empty, s.table⟩)
      ⟨Key.encode (.string "b"), [⟨4, some [3]⟩]⟩ = .conflict := by
    decide +kernel
  have htext : f.describe (Key.encode (.string "b")) = "\"b\"" := by decide +kernel
  rw [hleading.1] at hfirst
  rw [hleading.2.1] at hsecond
  rw [hleading.2.2] at hthird
  refine ⟨hcursors, hfirst.yields_of_value hvalue (by decide +kernel), ?_, ?_⟩
  · cases hsecond with
    | nothing hyields => exact hyields
  · rw [← htext]
    exact hthird.yields_of_conflict hconflict

end Keyspan.Session
