import Keyspan.Proofs.Store.Valid

/-!
Appending to pages is appending to the flat list of all records, whichever page is loaded or split
for it, and keeps a store valid.

The first key of a page is kept by hand: it changes only for a key below it, and a split gives the second
half one of its own. So it stays the key of the first record.
-/

set_option autoImplicit false
set_option relaxedAutoImplicit false

namespace Keyspan

open Std Flat

namespace Page

variable {codec : Codec} {order : KeyOrder} {limit : Nat} {key : Bytes} {v : Version}
  {records : List Record} {p q : Page}

private theorem contents_file :
    (file order limit key v records p).flatMap (contents codec) =
      Record.file order key v records := by
  rw [file]
  dsimp only
  generalize Record.file order key v records = l
  split
  · conv => rhs; rw [← List.take_append_drop (l.length / 2) l]
    cases l.drop (l.length / 2) <;> simp [contents]
  · simp [contents]

theorem file_ne_nil : file order limit key v records p ≠ [] := by
  rw [file]
  split <;> exact List.cons_ne_nil _ _

theorem isResident_of_mem_file (h : q ∈ file order limit key v records p) : q.isResident = true := by
  rw [file] at h
  dsimp only at h
  split at h
  · rcases List.mem_cons.1 h with rfl | h
    · rfl
    · split at h
      · cases h
      · rw [List.mem_singleton.1 h]
        rfl
  · rw [List.mem_singleton.1 h]
    rfl

theorem head?_file (h : Ascending order records)
    (hfirst : records.head?.map Record.key = some p.first) (key : Bytes) (v : Version) :
    (Record.file order key v records).head?.map Record.key =
      some (if order.compare key p.first = .lt then key else p.first) := by
  cases records with
  | nil => cases hfirst
  | cons r rest =>
    have hr : r.key = p.first := by simpa using hfirst
    rw [h.file_eq, Flat.file, ← hr]
    cases hc : order.compare r.key key with
    | lt => simp [OrientedCmp.gt_of_lt hc]
    | eq => simp [OrientedCmp.eq_symm hc, Record.push]
    | gt => simp [OrientedCmp.lt_of_gt hc]

theorem of_mem_file (hlimit : 2 ≤ limit) (h : Ascending order records)
    (hfirst : records.head?.map Record.key = some p.first) (hlen : records.length ≤ limit)
    (hq : q ∈ file order limit key v records p) :
    q.Sound codec ∧ (q.contents codec).head?.map Record.key = some q.first ∧
      (q.contents codec).length ≤ limit := by
  have hhead := head?_file h hfirst key v
  have hfiled : (Record.file order key v records).length ≤ limit + 1 := by
    rw [h.file_eq]
    exact Nat.le_trans (length_file_le key v records) (Nat.succ_le_succ hlen)
  rw [file] at hq
  dsimp only at hq
  generalize Record.file order key v records = l at hhead hfiled hq
  split at hq
  next hlt =>
    rcases List.mem_cons.1 hq with rfl | hq
    · refine ⟨trivial, ?_, ?_⟩
      · have hhalf : l.length / 2 ≠ 0 := by omega
        simpa only [contents, List.head?_take, if_neg hhalf] using hhead
      · simp only [contents, List.length_take]
        omega
    · have hback : (l.drop (l.length / 2)).length ≤ limit := by
        rw [List.length_drop]
        omega
      split at hq
      next => cases hq
      next r tail hdrop =>
        obtain rfl := List.mem_singleton.1 hq
        exact ⟨trivial, rfl, hdrop ▸ hback⟩
  next hle =>
    obtain rfl := List.mem_singleton.1 hq
    exact ⟨trivial, hhead, Nat.le_of_not_lt hle⟩

end Page

namespace Store

variable {s t : Store} {key : Bytes}

theorem pageFor_lt (hne : s.pages ≠ []) (key : Bytes) : s.pageFor key < s.pages.length := by
  have hpos := List.length_pos_iff.2 hne
  have hle := Front.length_le (fun p : Page => (s.order.compare p.first key).isLE) s.pages
  rw [pageFor]
  omega

private theorem replacePage_eq {front back : List Page} {p : Page} (f : Page → List Page)
    (h : s.pages = front ++ p :: back) :
    s.replacePage front.length f = { s with pages := front ++ f p ++ back } := by
  have hdrop : (front ++ p :: back).drop (front.length + 1) = back := by
    rw [← List.drop_drop, List.drop_left]
    rfl
  have hget : (front ++ p :: back)[front.length]? = some p := by simp
  simp only [replacePage, h, List.take_left, hdrop, hget, Option.toList_some, List.flatMap_singleton]

theorem Alike.replacePage (h : s.Alike t) (i : Nat) {f : Page → List Page}
    (hf : ∀ p, f (p.settled s.codec) = f p) : (s.replacePage i f).Alike (t.replacePage i f) := by
  have hmap : ∀ u : Store, (u.replacePage i f).pages.map (Page.settled s.codec) =
      (u.pages.map (Page.settled s.codec)).take i ++
        (u.pages.map (Page.settled s.codec))[i]?.toList.flatMap
          (fun p => (f p).map (Page.settled s.codec)) ++
        (u.pages.map (Page.settled s.codec)).drop (i + 1) := by
    intro u
    simp only [Store.replacePage, List.map_append, List.map_take, List.map_drop, List.getElem?_map]
    cases u.pages[i]? with
    | none => rfl
    | some p => simp [hf]
  refine ⟨h.order, h.paging, ?_⟩
  have hpages : t.pages.map (Page.settled s.codec) = s.pages.map (Page.settled s.codec) := by
    rw [← h.pages, h.codec]
  rw [show (t.replacePage i f).codec = s.codec from h.codec,
    show (s.replacePage i f).codec = s.codec from rfl, hmap, hmap, hpages]

theorem append_of_empty (hnil : s.pages = []) (key : Bytes) (v : Version) :
    (append key v).run s = .ok () { s with pages := [⟨key, .resident [⟨key, [v]⟩]⟩] } := by
  simp only [append, EStateM.run_bind, EStateM.run_get, hnil, List.isEmpty_nil, if_true]
  rfl

/-- Any other update goes to the page that covers its key, once that is in memory. -/
theorem append_of_load (hne : s.pages ≠ []) (v : Version) {records : List Record}
    (hload : (load (s.pageFor key)).run s = .ok records t) :
    (append key v).run s = .ok () (t.replacePage (s.pageFor key)
      (Page.file t.order t.pageLimit key v records)) := by
  have hempty : ¬ s.pages.isEmpty = true := by simpa using hne
  simp only [append, EStateM.run_bind, EStateM.run_get, if_neg hempty, hload, EStateM.run_modify]

theorem valid_file (hs : s.Valid) {front back : List Page} {p : Page} (v : Version)
    (hpages : s.pages = front ++ p :: back)
    (hlow : ∀ r ∈ front.flatMap (Page.contents s.codec), s.order.compare r.key key = .lt)
    (hhigh : ∀ r ∈ back.flatMap (Page.contents s.codec), s.order.compare r.key key = .gt) :
    let t := s.replacePage front.length
      (Page.file s.order s.pageLimit key v (p.contents s.codec))
    t.records = Flat.append s.order key v s.records ∧ t.Valid := by
  intro t
  have ht : t.pages = front ++ Page.file s.order s.pageLimit key v (p.contents s.codec) p ++ back :=
    congrArg Store.pages (replacePage_eq _ hpages)
  have hp : p ∈ s.pages := by
    rw [hpages]
    exact List.mem_append_right front List.mem_cons_self
  have hrecords : t.records = Flat.append s.order key v s.records := by
    have hflat : s.records = front.flatMap (Page.contents s.codec) ++
        (p.contents s.codec ++ back.flatMap (Page.contents s.codec)) := by
      rw [records, hpages, List.flatMap_append, List.flatMap_cons]
    rw [← file_eq_append hs.ascending, hflat, file_append_left v _ hlow,
      file_append_right v _ hhigh, records, ht, List.flatMap_append, List.flatMap_append,
      show t.codec = s.codec from rfl, Page.contents_file, (hs.page_ascending hp).file_eq,
      List.append_assoc]
  have hnew : ∀ q ∈ t.pages, q ∈ s.pages ∨
      q.Sound s.codec ∧ (q.contents s.codec).head?.map Record.key = some q.first ∧
        (q.contents s.codec).length ≤ s.pageLimit := by
    intro q hq
    rw [ht, List.append_assoc, List.mem_append, List.mem_append] at hq
    rcases hq with hq | hq | hq
    · rw [hpages]
      exact Or.inl (List.mem_append_left _ hq)
    · exact Or.inr (Page.of_mem_file (Nat.le_max_right _ _) (hs.page_ascending hp) (hs.first p hp)
        (hs.bounded p hp) hq)
    · rw [hpages]
      exact Or.inl (List.mem_append_right front (List.mem_cons_of_mem p hq))
  refine ⟨hrecords, ?_, ?_, ?_, ?_⟩
  · exact fun q hq => (hnew q hq).elim (hs.sound q) fun h => h.1
  · exact fun q hq => (hnew q hq).elim (hs.first q) fun h => h.2.1
  · exact fun q hq => (hnew q hq).elim (hs.bounded q) fun h => h.2.2
  · rw [hrecords]
    exact hs.ascending.append key v

/-- An append never fails and does to all records what it does to a flat list. -/
theorem append_run (hs : s.Valid) (key : Bytes) (v : Version) :
    ∃ t, (append key v).run s = .ok () t ∧ t.order = s.order ∧ t.paging = s.paging ∧
      t.records = Flat.append s.order key v s.records ∧ t.Valid := by
  by_cases hne : s.pages = []
  · refine ⟨_, append_of_empty hne key v, rfl, rfl, ?_, ?_, ?_, ?_, ?_⟩
    · simp [records, hne, Page.contents, Flat.append]
    · exact List.forall_mem_singleton.2 trivial
    · exact List.forall_mem_singleton.2 rfl
    · exact List.forall_mem_singleton.2 (Nat.le_trans (Nat.le_succ 1) (Nat.le_max_right _ _))
    · exact List.pairwise_singleton _ _
  · obtain ⟨t, hload, hst, ht⟩ := load_run hs (s.pageFor key)
    have hne' : t.pages ≠ [] := fun h => hne (by
      have hlen := hst.length_pages
      rw [h] at hlen
      exact List.length_eq_zero_iff.1 hlen.symm)
    obtain ⟨front, p, back, hpages, hlen, hlow, hhigh⟩ := exists_cover ht hne' key
    have hi : s.pageFor key = front.length := by
      rw [← hst.pageFor_eq hs ht, hlen]
    have hget : s.pages[s.pageFor key]?.map (Page.contents s.codec) = some (p.contents t.codec) := by
      rw [← hst.contents_getElem?, hpages, hi]
      simp
    obtain ⟨hrecords, hvalid⟩ := valid_file ht v hpages hlow hhigh
    rw [hget, Option.getD_some] at hload
    refine ⟨_, append_of_load hne v hload, hst.order, hst.paging, ?_, ?_⟩
    · rw [hi, hrecords, hst.order, hst.records_eq]
    · rw [hi]
      exact hvalid

/-- An append does the same to stores that differ in where their pages are. -/
theorem append_alike (h : s.Alike t) (hs : s.Valid) (ht : t.Valid) (key : Bytes) (v : Version) :
    ∃ u w, (append key v).run s = .ok () u ∧ (append key v).run t = .ok () w ∧ u.Alike w := by
  by_cases hne : s.pages = []
  · have hne' : t.pages = [] := by
      have hlen := h.length_pages
      rw [hne] at hlen
      exact List.length_eq_zero_iff.1 hlen
    exact ⟨_, _, append_of_empty hne key v, append_of_empty hne' key v, h.order, h.paging, rfl⟩
  · have hne' : t.pages ≠ [] := fun hnil => hne (by
      have hlen := h.length_pages
      rw [hnil] at hlen
      exact List.length_eq_zero_iff.1 hlen.symm)
    obtain ⟨u, hu, hsu, -⟩ := load_run hs (s.pageFor key)
    obtain ⟨w, hw, htw, -⟩ := load_run ht (t.pageFor key)
    have huw : u.Alike w := hsu.symm.trans (h.trans htw)
    refine ⟨_, _, append_of_load hne v hu, append_of_load hne' v hw, ?_⟩
    rw [h.pageFor_eq hs ht, h.contents_getElem?, huw.order, huw.pageLimit_eq]
    exact huw.replacePage _ fun _ => rfl

end Store

end Keyspan
