import Keyspan.Proofs.Compression.Literal
import Keyspan.Proofs.Store.Weight

/-!
How a store lays its records out on pages.

The pages are runs of one ascending list, none of them empty or over the limit, each filed under the key
that its run starts with. So the search over first keys ends at the page that holds a record, and an
append, which can only put two pages in the place of one, never leaves fewer.
-/

set_option autoImplicit false
set_option relaxedAutoImplicit false

namespace Keyspan.Store

open Std Flat

variable {s t : Store}

namespace Valid

theorem contents_ne_nil (hs : s.Valid) {p : Page} (hp : p ∈ s.pages) : p.contents s.codec ≠ [] := by
  obtain ⟨r, hr, -⟩ := hs.exists_first hp
  exact List.ne_nil_of_mem hr

/-- The search over first keys ends at the page that holds a record. -/
theorem pageFor_eq (hs : s.Valid) {i : Nat} {p : Page} (hp : s.pages[i]? = some p) {r : Record}
    (hr : r ∈ p.contents s.codec) : s.pageFor r.key = i := by
  have hne : s.pages ≠ [] := List.ne_nil_of_mem (List.mem_of_getElem? hp)
  obtain ⟨front, q, back, hpages, hlen, hlow, hhigh⟩ := exists_cover hs hne r.key
  have hself : s.order.compare r.key r.key = .eq := ReflCmp.compare_self
  rw [← hlen]
  rcases Nat.lt_trichotomy i front.length with hi | hi | hi
  · -- among the pages in front the record would lie below itself
    rw [hpages, List.getElem?_append_left hi] at hp
    have hlt := hlow r (List.mem_flatMap.2 ⟨p, List.mem_of_getElem? hp, hr⟩)
    exact absurd (hself.symm.trans hlt) (by decide)
  · exact hi.symm
  · obtain ⟨n, rfl⟩ := Nat.exists_eq_add_of_lt hi
    rw [hpages, List.getElem?_append_right (by omega)] at hp
    have hback : back[n]? = some p := by
      have hn : front.length + n + 1 - front.length = n + 1 := by omega
      rwa [hn, List.getElem?_cons_succ] at hp
    have hgt := hhigh r (List.mem_flatMap.2 ⟨p, List.mem_of_getElem? hback, hr⟩)
    exact absurd (hself.symm.trans hgt) (by decide)

theorem getLast_lt_first (hs : s.Valid) {i : Nat} {p q : Page} (hp : s.pages[i]? = some p)
    (hq : s.pages[i + 1]? = some q) {r : Record} (hr : (p.contents s.codec).getLast? = some r) :
    s.order.compare r.key q.first = .lt := by
  obtain ⟨hi, rfl⟩ := List.getElem?_eq_some_iff.1 hp
  obtain ⟨hj, rfl⟩ := List.getElem?_eq_some_iff.1 hq
  exact List.pairwise_iff_getElem.1 hs.first_lt i (i + 1) hi hj (Nat.lt_succ_self i) r
    (List.mem_of_getLast? hr)

theorem compare_ne_eq (hs : s.Valid) :
    s.records.Pairwise fun a b => s.order.compare a.key b.key ≠ .eq := by
  refine List.Pairwise.imp ?_ hs.ascending
  intro a b hlt heq
  exact absurd (heq.symm.trans hlt) (by decide)

end Valid

/-- A later state of a store: paged as before, and on no fewer pages. -/
structure Grows (s t : Store) : Prop where
  paging : t.paging = s.paging
  pages : s.pages.length ≤ t.pages.length

private theorem Grows.refl (s : Store) : s.Grows s := ⟨rfl, Nat.le_refl _⟩

private theorem Grows.trans {u : Store} (h : s.Grows t) (k : t.Grows u) : s.Grows u :=
  ⟨k.paging.trans h.paging, Nat.le_trans h.pages k.pages⟩

theorem grows_append (hs : s.Valid) (key : Bytes) (v : Version) :
    ∃ t, (append key v).run s = .ok () t ∧ s.Grows t := by
  by_cases hne : s.pages = []
  · refine ⟨_, append_of_empty hne key v, rfl, ?_⟩
    rw [hne]
    exact Nat.zero_le 1
  · obtain ⟨t, hload, hst, -⟩ := load_run hs (s.pageFor key)
    refine ⟨_, append_of_load hne v hload, hst.paging, ?_⟩
    obtain ⟨p, hp⟩ : ∃ p, t.pages[s.pageFor key]? = some p :=
      ⟨_, List.getElem?_eq_getElem (hst.length_pages ▸ pageFor_lt hne key)⟩
    have hfiled : 0 < (Page.file t.order t.pageLimit key v
        ((s.pages[s.pageFor key]?.map (Page.contents s.codec)).getD []) p).length :=
      List.length_pos_iff.2 Page.file_ne_nil
    have hlen := hst.length_pages
    have hlt := pageFor_lt hne key
    simp only [replacePage, hp, Option.toList_some, List.flatMap_singleton, List.length_append,
      List.length_take, List.length_drop]
    omega

theorem grows_run (hs : s.Valid) (hm : s.InMemory) (call : StoreCall) :
    s.Grows (call.run s).2 := by
  cases hcall : call.appended? with
  | none =>
    obtain ⟨hst, -⟩ := run_alike hs hm hcall
    exact ⟨hst.paging, Nat.le_of_eq hst.length_pages.symm⟩
  | some a =>
    obtain ⟨key, v⟩ := a
    obtain rfl := StoreCall.eq_append hcall
    obtain ⟨t, hrun, hst⟩ := grows_append hs key v
    simp only [StoreCall.run, StoreCall.answer, hrun]
    exact hst

/-- A run of calls whose updates memory can hold keeps store and list together, and takes no page
away. -/
theorem Refines.after_of_room {order : KeyOrder} {appends : List (Bytes × Version)}
    (h : s.Refines order appends) (calls : List StoreCall)
    (hroom : 10 + ((appends ++ calls.filterMap StoreCall.appended?).map appendWeight).sum < 2 ^ 64) :
    (s.after calls).Refines order (appends ++ calls.filterMap StoreCall.appended?) ∧
      s.Grows (s.after calls) := by
  induction calls generalizing s appends with
  | nil =>
    rw [List.filterMap_nil, List.append_nil]
    exact ⟨h, .refl s⟩
  | cons call calls ih =>
    have hm : s.InMemory := h.inMemory (by
      rw [List.map_append, List.sum_append] at hroom
      omega)
    have hlist : (call :: calls).filterMap StoreCall.appended? =
        call.appended?.toList ++ calls.filterMap StoreCall.appended? := by
      cases hc : call.appended? <;> simp [hc]
    rw [hlist, ← List.append_assoc] at hroom ⊢
    obtain ⟨hrest, hgrows⟩ := ih (h.call hm call) hroom
    exact ⟨hrest, (grows_run h.valid hm call).trans hgrows⟩

/-- Whatever calls were made on a store, as long as memory holds what they append: every page, in memory
or in its image, holds at least one record and no more than the limit, strictly ascending and filed under
the key of the first; the last key of a page is below the first of the next, so that no two stored keys
compare equal; every record is on the page that the search for its key ends at; and there are no fewer
pages than there ever were. -/
theorem pages_hold_ascending_runs (order : KeyOrder) (paging : Paging) (calls : List StoreCall)
    (room : 10 + ((calls.filterMap StoreCall.appended?).map appendWeight).sum < 2 ^ 64) :
    let s := (empty order paging).after calls
    (∀ p ∈ s.pages, p.Sound s.codec ∧ 1 ≤ (p.contents s.codec).length ∧
      (p.contents s.codec).length ≤ max paging.capacity 2 ∧
      (p.contents s.codec).Pairwise (fun a b => order.compare a.key b.key = .lt) ∧
      (p.contents s.codec).head?.map Record.key = some p.first) ∧
    (∀ i p q r, s.pages[i]? = some p → s.pages[i + 1]? = some q →
      (p.contents s.codec).getLast? = some r → order.compare r.key q.first = .lt) ∧
    s.records.Pairwise (fun a b => order.compare a.key b.key ≠ .eq) ∧
    (∀ i p r, s.pages[i]? = some p → r ∈ p.contents s.codec → s.pageFor r.key = i) ∧
    ∀ n, ((empty order paging).after (calls.take n)).pages.length ≤ s.pages.length := by
  intro s
  obtain ⟨href, hgrows⟩ := (refines_empty order paging).after_of_room calls room
  have hs : s.Valid := href.valid
  have horder : s.order = order := href.ordered
  have hlimit : s.pageLimit = max paging.capacity 2 := by
    rw [pageLimit, hgrows.paging]
    rfl
  refine ⟨fun p hp => ⟨hs.sound p hp, List.length_pos_iff.2 (hs.contents_ne_nil hp),
    hlimit ▸ hs.bounded p hp, horder ▸ hs.page_ascending hp, hs.first p hp⟩, ?_, ?_, ?_, ?_⟩
  · intro i p q r hp hq hr
    exact horder ▸ hs.getLast_lt_first hp hq hr
  · exact horder ▸ hs.compare_ne_eq
  · exact fun i p r hp hr => hs.pageFor_eq hp hr
  · intro n
    -- the store after some of the calls, and the run from there on
    rw [show calls = calls.take n ++ calls.drop n from (List.take_append_drop n calls).symm,
      List.filterMap_append] at room
    obtain ⟨hearly, -⟩ := (refines_empty order paging).after_of_room (calls.take n) (by
      rw [List.map_append, List.sum_append] at room
      rw [List.nil_append]
      omega)
    obtain ⟨-, hlater⟩ := hearly.after_of_room (calls.drop n) room
    have hend : ((empty order paging).after (calls.take n)).after (calls.drop n) = s := by
      rw [after, after, ← List.foldl_append, List.take_append_drop]
      rfl
    rw [hend] at hlater
    exact hlater.pages

theorem pages_hold_ascending_runs_scattered :
    let s := (empty .bytewise { codec := Snappy.codec, capacity := 0 }).after scattered
    10 + ((scattered.filterMap StoreCall.appended?).map appendWeight).sum < 2 ^ 64 ∧
      ∀ p ∈ s.pages, 1 ≤ (p.contents s.codec).length ∧ (p.contents s.codec).length ≤ 2 ∧
        (p.contents s.codec).head?.map Record.key = some p.first := by
  have room : 10 + ((scattered.filterMap StoreCall.appended?).map appendWeight).sum < 2 ^ 64 := by
    decide
  obtain ⟨hpages, -⟩ := pages_hold_ascending_runs .bytewise
    { codec := Snappy.codec, capacity := 0 } scattered room
  refine ⟨room, fun p hp => ?_⟩
  obtain ⟨-, hpos, hlimit, -, hfirst⟩ := hpages p hp
  exact ⟨hpos, hlimit, hfirst⟩

end Keyspan.Store
