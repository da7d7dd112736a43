import Keyspan.Proofs.Cursor.Nearest
import Keyspan.Proofs.Cursor.Sweep

/-!
A search, a near search and a walk.

The record that decides a search is the one that decides the near search for the same key, if it has that
key. A walk over the same range returns its entry, since that is the only one there with this key.
-/

set_option autoImplicit false
set_option relaxedAutoImplicit false

namespace Keyspan

open Std

theorem Bounds.admits_congr {f : Format} {b : Bounds} {x y : Bytes}
    (h : (KeyOrder.typed f).compare x y = .eq) : b.admits f x = b.admits f y := by
  have hsame : ∀ z, (KeyOrder.typed f).compare x z = (KeyOrder.typed f).compare y z :=
    fun z => TransCmp.congr_left h
  simp only [admits, admitsForward, admitsBackward, hsame]

namespace Flat

variable {order : KeyOrder} {l : List Record} {key : Bytes} {r : Record}

/-- A key has a record of its own in an ascending list if it has one at all, and all records before that
one are below the key. -/
theorem Ascending.split_at (h : Ascending order l) (hr : r ∈ l)
    (hkey : order.compare r.key key = .eq) :
    ∃ front back, l = front ++ r :: back ∧ ∀ x ∈ front, order.compare x.key key = .lt := by
  obtain ⟨front, back, rfl⟩ := List.append_of_mem hr
  refine ⟨front, back, rfl, fun x hx => ?_⟩
  have hlt := (List.pairwise_append.1 h).2.2 x hx r List.mem_cons_self
  exact TransCmp.lt_of_lt_of_eq hlt hkey

private theorem Ascending.pick_exact_iff (h : Ascending order l) :
    pick order l (.exact key) = some r ↔ r ∈ l ∧ order.compare r.key key = .eq := by
  constructor
  · intro hpick
    rw [pick] at hpick
    exact ⟨List.mem_of_find?_eq_some hpick, by simpa using List.find?_some hpick⟩
  · rintro ⟨hr, hkey⟩
    obtain ⟨front, back, rfl, hfront⟩ := h.split_at hr hkey
    have hnone : front.find? (fun x => order.compare x.key key = .eq) = none := by
      rw [List.find?_eq_none]
      intro x hx
      simp [hfront x hx]
    rw [pick, List.find?_append, hnone, Option.none_or, List.find?_cons_of_pos (by simp [hkey])]

theorem Ascending.nearOrder_eq {f : Format} (h : Ascending (.typed f) l) (hr : r ∈ l)
    (hkey : (KeyOrder.typed f).compare r.key key = .eq) :
    ∃ rest, nearOrder f key l = r :: rest := by
  obtain ⟨front, back, rfl, hfront⟩ := h.split_at hr hkey
  have hnone : front.filter (fun x => (KeyOrder.typed f).compare x.key key ≠ .lt) = [] := by
    rw [List.filter_eq_nil_iff]
    intro x hx
    simp [hfront x hx]
  rw [nearOrder, List.filter_append, hnone, List.nil_append, List.filter_cons_of_pos (by simp [hkey])]
  exact ⟨_, rfl⟩

end Flat

namespace Scan

variable {s : Scan} {key : Bytes} {r : Record}

def sought? (s : Scan) (key : Bytes) : Option Record :=
  (Flat.pick s.table.store.order s.table.store.records (.exact key)).filter fun r =>
    s.cursor.bounds.admits s.table.format r.key && s.table.judge s.reader r ≠ .hidden

section Stored

variable (hs : s.table.store.Valid) (hordered : s.table.store.order = .typed s.table.format)
include hs hordered

theorem sought?_eq_some_iff : s.sought? key = some r ↔
    (r ∈ s.table.store.records ∧ (KeyOrder.typed s.table.format).compare r.key key = .eq) ∧
      s.cursor.bounds.admits s.table.format r.key = true ∧ s.table.judge s.reader r ≠ .hidden := by
  rw [sought?, Option.filter_eq_some_iff, hs.ascending.pick_exact_iff, hordered, Bool.and_eq_true,
    decide_eq_true_iff]

theorem sought?_eq_filter : s.sought? key = (s.nearest? key).filter fun r =>
    (KeyOrder.typed s.table.format).compare r.key key = .eq := by
  refine Option.ext fun r => ?_
  rw [Option.filter_eq_some_iff, sought?_eq_some_iff hs hordered, decide_eq_true_iff]
  constructor
  · rintro ⟨⟨hr, hkey⟩, hadmits, hno⟩
    obtain ⟨rest, hrest⟩ := Flat.Ascending.nearOrder_eq (hordered ▸ hs.ascending) hr hkey
    refine ⟨?_, hkey⟩
    rw [nearest?, hrest, List.filter_cons_of_pos
      (p := fun x : Record => s.cursor.bounds.admits s.table.format x.key) hadmits,
      List.find?_cons_of_pos (by simpa using hno)]
  · rintro ⟨hnearest, hkey⟩
    obtain ⟨hr, hadmits, hno⟩ := mem_nearest? hnearest
    exact ⟨⟨hr, hkey⟩, hadmits, hno⟩

theorem searched_eq_settled
    (unprepared : ∀ txn, s.cursor.txn = some txn → s.table.ledger.state txn ≠ .prepared)
    (staged : s.cursor.staged = some key) :
    s.searched = s.settled (s.sought? key) (fun _ => some) (.ok none, {}) := by
  rw [searched, keyed_of_staged unprepared staged, sought?]
  cases hpick : Flat.pick s.table.store.order s.table.store.records (.exact key) with
  | none => exact ite_self _
  | some r =>
    have hkey : (KeyOrder.typed s.table.format).compare r.key key = .eq := by
      rw [← hordered]
      exact (hs.ascending.pick_exact_iff.1 hpick).2
    dsimp only
    rw [← Bounds.admits_congr hkey]
    cases hadmits : s.cursor.bounds.admits s.table.format r.key with
    | false => simp [Option.filter, hadmits, settled]
    | true => cases hj : s.table.judge s.reader r <;> simp [Option.filter, hadmits, hj, settled]

end Stored

section Settled

variable {α : Type} {reply : Held → Entry → α} {missed : Except Error α × Place}

private theorem settled_value {b : Bytes} {k : Key} (hj : s.table.judge s.reader r = .value b)
    (hk : s.table.format.unpackKey r.key = .ok k) :
    s.settled (some r) reply missed = (.ok (reply ⟨r.key, b⟩ ⟨k, b⟩), .on ⟨r.key, b⟩) := by
  simp only [settled, hj, landed, landing, hk]
  rfl

private theorem settled_conflict (hj : s.table.judge s.reader r = .conflict) :
    s.settled (some r) reply missed = (.error (s.conflict r.key), s.cursor.place) := by
  simp only [settled, hj]

end Settled

/-- How a search and a near search for one key go together: both find the record of the key, both are
refused for it, or the search finds nothing and the near search does not find the key. -/
inductive Agrees (s : Scan) (key : Bytes) : Prop
  | found {r : Record} {e : Entry} (sought : s.sought? key = some r) (reads : s.reads? r = some e)
    (search : CursorCall.search.effect s =
      (.entry (some e), { s.cursor with place := .on ⟨r.key, e.value⟩ }))
    (near : CursorCall.searchNear.effect s =
      (.near (some (.exact, e)), { s.cursor with place := .on ⟨r.key, e.value⟩ })) : Agrees s key
  | refused {r : Record} (sought : s.sought? key = some r)
    (conflict : s.table.judge s.reader r = .conflict)
    (search : CursorCall.search.effect s = (.failed (s.conflict r.key), s.cursor))
    (near : CursorCall.searchNear.effect s = (.failed (s.conflict r.key), s.cursor)) : Agrees s key
  | missed (sought : s.sought? key = none)
    (search : CursorCall.search.effect s = (.entry none, { s.cursor with place := {} }))
    (near : ∀ e, (CursorCall.searchNear.effect s).1 ≠ .near (some (.exact, e))) : Agrees s key

theorem Walks.agrees (h : s.Walks) (staged : s.cursor.staged = some key)
    (hlead : s.leadOf key = none) : s.Agrees key := by
  have hsearch : CursorCall.search.effect s = CursorCall.told s.cursor .entry
      (s.settled (s.sought? key) (fun _ => some) (.ok none, {})) := by
    rw [CursorCall.effect, searched_eq_settled h.valid h.ordered h.unprepared staged]
  have hnear : CursorCall.searchNear.effect s = CursorCall.told s.cursor .near
      (s.nears key (s.nearest? key)) := by
    rw [CursorCall.effect, neared_eq_nears h.ordered h.valid h.unprepared staged hlead]
  have hnearest : ∀ r, s.nearest? key = some r →
      (∃ k, s.table.format.unpackKey r.key = .ok k) ∧ s.table.judge s.reader r ≠ .hidden :=
    fun r hr => ⟨h.unpacks r (mem_nearest? hr).1, (mem_nearest? hr).2.2⟩
  have hfilter : s.sought? key = _ := sought?_eq_filter h.valid h.ordered
  cases hsought : s.sought? key with
  | some r =>
    rw [hsought] at hfilter hsearch
    obtain ⟨hr, hkey⟩ := Option.filter_eq_some_iff.1 hfilter.symm
    obtain ⟨⟨k, hk⟩, hno⟩ := hnearest r hr
    rw [hr, nears] at hnear
    cases hj : s.table.judge s.reader r with
    | hidden => exact absurd hj hno
    | value b =>
      rw [settled_value hj hk] at hsearch hnear
      rw [of_decide_eq_true hkey] at hnear
      have hreads : s.reads? r = some ⟨k, b⟩ := by
        rw [reads?, hj]
        simp only [entry, hk]
      exact .found hsought hreads hsearch hnear
    | conflict =>
      rw [settled_conflict hj] at hsearch hnear
      exact .refused hsought hj hsearch hnear
  | none =>
    rw [hsought] at hfilter hsearch
    refine .missed hsought hsearch fun e => ?_
    rw [hnear, nears]
    cases hr : s.nearest? key with
    | none => simp [settled, CursorCall.told]
    | some r =>
      obtain ⟨⟨k, hk⟩, hno⟩ := hnearest r hr
      rw [hr] at hfilter
      have hkey := Option.filter_eq_none_iff.1 hfilter.symm r rfl
      cases hj : s.table.judge s.reader r with
      | hidden => exact absurd hj hno
      | value b =>
        rw [settled_value hj hk]
        revert hkey
        cases (KeyOrder.typed s.table.format).compare r.key key <;>
          simp [CursorCall.told, Nearness.ofOrdering]
      | conflict =>
        rw [settled_conflict hj]
        simp [CursorCall.told]

private theorem reads?_eq_some_iff {e : Entry} : s.reads? r = some e ↔
    s.table.judge s.reader r = .value e.value ∧ s.table.format.unpackKey r.key = .ok e.key := by
  obtain ⟨k, v⟩ := e
  rw [reads?]
  cases s.table.judge s.reader r with
  | value b =>
    simp only [entry]
    cases s.table.format.unpackKey r.key with
    | error _ => simp
    | ok key => simp [and_comm]
  | hidden => simp
  | conflict => simp

theorem reader_congr {d : Cursor} (h : d.txn = s.cursor.txn) : reader ⟨d, s.table⟩ = s.reader := by
  simp only [reader, h]

variable {d : Cursor} {dir : Direction}

theorem Walks.mem_within_iff (h : s.Walks) (hbounds : d.bounds = s.cursor.bounds)
    (hp : d.position = .unpositioned) : r ∈ within ⟨d, s.table⟩ dir ↔
      r ∈ s.table.store.records ∧ s.cursor.bounds.admits s.table.format r.key = true := by
  rw [within_of_unpositioned (s := ⟨d, s.table⟩) h.valid h.ordered dir hp, List.mem_filter,
    Direction.mem_arrange, hbounds]

/-- What a walk over the whole range returns with this key is what the reader reads in the record of the
key. -/
theorem Walks.mem_entries_iff_sought? (h : s.Walks) {wanted : Key} {e : Entry}
    (hkey : s.table.format.unpackKey key = .ok wanted) (hbounds : d.bounds = s.cursor.bounds)
    (htxn : d.txn = s.cursor.txn) (hp : d.position = .unpositioned) :
    e ∈ entries ⟨d, s.table⟩ dir ∧ e.key = wanted ↔
      ∃ r, s.sought? key = some r ∧ s.reads? r = some e := by
  have hreads : reads? ⟨d, s.table⟩ = s.reads? := by
    funext r
    simp only [reads?, reader_congr htxn]
  have hsame {r : Record} (hr : s.reads? r = some e) :
      (KeyOrder.typed s.table.format).compare r.key key = .eq ↔ e.key = wanted :=
    Format.compare_unpacked (reads?_eq_some_iff.1 hr).2 hkey
  rw [entries, List.mem_filterMap, hreads]
  constructor
  · rintro ⟨⟨r, hr, hread⟩, hwanted⟩
    obtain ⟨hmem, hadmits⟩ := (h.mem_within_iff hbounds hp).1 hr
    refine ⟨r, (sought?_eq_some_iff h.valid h.ordered).2 ⟨⟨hmem, (hsame hread).2 hwanted⟩, hadmits, ?_⟩,
      hread⟩
    simp [(reads?_eq_some_iff.1 hread).1]
  · rintro ⟨r, hsought, hread⟩
    obtain ⟨⟨hmem, hcompare⟩, hadmits, -⟩ := (sought?_eq_some_iff h.valid h.ordered).1 hsought
    exact ⟨⟨r, (h.mem_within_iff hbounds hp).2 ⟨hmem, hadmits⟩, hread⟩, (hsame hread).1 hcompare⟩

end Scan

end Keyspan
