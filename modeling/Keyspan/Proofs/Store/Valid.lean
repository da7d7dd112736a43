import Keyspan.Proofs.Page.Contents
import Keyspan.Proofs.Store.Flat

/-!
The invariant of a store, and what loading and evicting pages leave as it was.

A valid store cuts one ascending list of records into pages that are not empty, not too long and
start with the key they are filed under; and every page that is away comes back. `Alike` stores
differ in where their pages are and in what was counted.
-/

set_option autoImplicit false
set_option relaxedAutoImplicit false

namespace Keyspan.Store

open Std Flat

/-- All records, in memory or not. -/
def records (s : Store) : List Record :=
  s.pages.flatMap (Page.contents s.codec)

/-- Memory can hold the payload of every page. -/
def InMemory (s : Store) : Prop :=
  ∀ p ∈ s.pages, (Image.payload (p.contents s.codec)).length < 2 ^ 64

/-- The payload of every page is below what the store's compression takes. -/
def Fits (s : Store) : Prop :=
  ∀ p ∈ s.pages, (Image.payload (p.contents s.codec)).length < s.paging.compression.limit s.codec

instance (s : Store) : Decidable s.InMemory :=
  inferInstanceAs (Decidable (∀ p ∈ s.pages, (Image.payload (p.contents s.codec)).length < 2 ^ 64))

instance (s : Store) : Decidable s.Fits :=
  inferInstanceAs (Decidable (∀ p ∈ s.pages,
    (Image.payload (p.contents s.codec)).length < s.paging.compression.limit s.codec))

structure Valid (s : Store) : Prop where
  sound : ∀ p ∈ s.pages, p.Sound s.codec
  first : ∀ p ∈ s.pages, (p.contents s.codec).head?.map Record.key = some p.first
  bounded : ∀ p ∈ s.pages, (p.contents s.codec).length ≤ s.pageLimit
  ascending : Ascending s.order s.records

/-- Stores with the same pages, wherever these are. -/
structure Alike (s t : Store) : Prop where
  order : t.order = s.order
  paging : t.paging = s.paging
  pages : t.pages.map (Page.settled t.codec) = s.pages.map (Page.settled s.codec)

theorem Fits.inMemory {s : Store} (h : s.Fits) : s.InMemory :=
  fun p hp => Nat.lt_of_lt_of_le (h p hp) (Compression.limit_le _)

theorem valid_empty (order : KeyOrder) (paging : Paging) : (empty order paging).Valid where
  sound := nofun
  first := nofun
  bounded := nofun
  ascending := List.Pairwise.nil

namespace Alike

variable {s t u : Store}

theorem refl (s : Store) : s.Alike s := ⟨rfl, rfl, rfl⟩

theorem trans (h : s.Alike t) (k : t.Alike u) : s.Alike u :=
  ⟨k.order.trans h.order, k.paging.trans h.paging, k.pages.trans h.pages⟩

theorem symm (h : s.Alike t) : t.Alike s := ⟨h.order.symm, h.paging.symm, h.pages.symm⟩

theorem codec (h : s.Alike t) : t.codec = s.codec :=
  congrArg Paging.codec h.paging

theorem map_contents (h : s.Alike t) :
    t.pages.map (Page.contents t.codec) = s.pages.map (Page.contents s.codec) := by
  have hc : ∀ u : Store, u.pages.map (Page.contents u.codec) =
      (u.pages.map (Page.settled u.codec)).map (Page.contents s.codec) := by
    intro u
    rw [List.map_map]
    rfl
  rw [hc, hc, h.pages]

theorem records_eq (h : s.Alike t) : t.records = s.records := by
  rw [records, records, List.flatMap_def, List.flatMap_def, h.map_contents]

theorem pageLimit_eq (h : s.Alike t) : t.pageLimit = s.pageLimit := by
  rw [pageLimit, pageLimit, h.paging]

theorem length_pages (h : s.Alike t) : t.pages.length = s.pages.length := by
  simpa using congrArg List.length h.pages

theorem exists_page (h : s.Alike t) {q : Page} (hq : q ∈ t.pages) :
    ∃ p ∈ s.pages, p.first = q.first ∧ p.contents s.codec = q.contents t.codec := by
  have hm : q.settled t.codec ∈ s.pages.map (Page.settled s.codec) :=
    h.pages ▸ List.mem_map_of_mem hq
  obtain ⟨p, hp, hpq⟩ := List.mem_map.1 hm
  rw [h.codec] at hpq ⊢
  exact ⟨p, hp, Page.settled_eq_iff.1 hpq⟩

theorem contents_getElem? (h : s.Alike t) (i : Nat) :
    t.pages[i]?.map (Page.contents t.codec) = s.pages[i]?.map (Page.contents s.codec) := by
  rw [← List.getElem?_map, ← List.getElem?_map, h.map_contents]

theorem inMemory (h : s.Alike t) (hs : s.InMemory) : t.InMemory := by
  intro q hq
  obtain ⟨p, hp, -, hpq⟩ := h.exists_page hq
  rw [← hpq]
  exact hs p hp

theorem fits (h : s.Alike t) (hs : s.Fits) : t.Fits := by
  intro q hq
  obtain ⟨p, hp, -, hpq⟩ := h.exists_page hq
  rw [← hpq, h.codec, h.paging]
  exact hs p hp

private theorem valid (h : s.Alike t) (hs : s.Valid) (ht : ∀ q ∈ t.pages, q.Sound t.codec) :
    t.Valid where
  sound := ht
  first q hq := by
    obtain ⟨p, hp, hfirst, hpq⟩ := h.exists_page hq
    rw [← hpq, ← hfirst]
    exact hs.first p hp
  bounded q hq := by
    obtain ⟨p, hp, -, hpq⟩ := h.exists_page hq
    rw [← hpq, h.pageLimit_eq]
    exact hs.bounded p hp
  ascending := by
    rw [h.order, h.records_eq]
    exact hs.ascending

theorem set_page {i : Nat} {p q : Page} (hp : s.pages[i]? = some p)
    (hpq : q.settled s.codec = p.settled s.codec) (stats : StoreStats) :
    s.Alike { s with pages := s.pages.set i q, stats := stats } := by
  refine ⟨rfl, rfl, ?_⟩
  obtain ⟨hi, rfl⟩ := List.getElem?_eq_some_iff.1 hp
  have hi' : i < (s.pages.map (Page.settled s.codec)).length := by simpa using hi
  have hset : (s.pages.map (Page.settled s.codec)).set i (s.pages.map (Page.settled s.codec))[i] =
      s.pages.map (Page.settled s.codec) := List.set_getElem_self hi'
  simpa [List.map_set, hpq] using hset

end Alike

namespace Valid

variable {s : Store}

theorem set_page (hs : s.Valid) {i : Nat} {p q : Page} (hp : s.pages[i]? = some p)
    (hq : q.Sound s.codec) (hpq : q.settled s.codec = p.settled s.codec) (stats : StoreStats) :
    Valid { s with pages := s.pages.set i q, stats := stats } := by
  refine (Alike.set_page hp hpq stats).valid hs ?_
  intro x hx
  rcases List.mem_or_eq_of_mem_set hx with hx | rfl
  · exact hs.sound x hx
  · exact hq

theorem page_ascending (hs : s.Valid) {p : Page} (hp : p ∈ s.pages) :
    Ascending s.order (p.contents s.codec) :=
  (List.pairwise_flatMap.1 hs.ascending).1 p hp

theorem isLE_first (hs : s.Valid) {p : Page} (hp : p ∈ s.pages) {r : Record}
    (hr : r ∈ p.contents s.codec) : (s.order.compare p.first r.key).isLE := by
  have hfirst := hs.first p hp
  have hasc := hs.page_ascending hp
  revert hr hfirst hasc
  cases p.contents s.codec with
  | nil => exact fun hr => absurd hr List.not_mem_nil
  | cons x l =>
    intro hr hfirst hasc
    have hx : p.first = x.key := by simpa using hfirst.symm
    rw [hx]
    rcases List.mem_cons.1 hr with rfl | hr
    · exact ReflCmp.isLE_rfl
    · exact Ordering.isLE_of_eq_lt ((List.pairwise_cons.1 hasc).1 r hr)

theorem gt_of_not_reaches (hs : s.Valid) {key : Bytes} {p : Page} (hp : p ∈ s.pages)
    (hn : ¬ (s.order.compare p.first key).isLE = true) {r : Record} (hr : r ∈ p.contents s.codec) :
    s.order.compare r.key key = .gt := by
  have hlt : s.order.compare key p.first = .lt := OrientedCmp.lt_of_not_isLE hn
  exact OrientedCmp.gt_of_lt (TransCmp.lt_of_lt_of_isLE hlt (hs.isLE_first hp hr))

theorem exists_first (hs : s.Valid) {p : Page} (hp : p ∈ s.pages) :
    ∃ r ∈ p.contents s.codec, r.key = p.first := by
  have hfirst := hs.first p hp
  obtain ⟨r, hr, hk⟩ := Option.map_eq_some_iff.1 hfirst
  exact ⟨r, List.mem_of_mem_head? hr, hk⟩

/-- The pages ascend by their first keys. -/
theorem first_lt (hs : s.Valid) :
    s.pages.Pairwise fun p q => ∀ r ∈ p.contents s.codec, s.order.compare r.key q.first = .lt := by
  have hp := (List.pairwise_flatMap.1 hs.ascending).2
  refine List.Pairwise.imp_of_mem ?_ hp
  intro p q _ hq h r hr
  obtain ⟨x, hx, hk⟩ := hs.exists_first hq
  rw [← hk]
  exact h r hr x hx

theorem leads_reaches (hs : s.Valid) (key : Bytes) :
    Front.Leads (fun p : Page => (s.order.compare p.first key).isLE) s.pages := by
  refine List.Pairwise.imp_of_mem ?_ hs.first_lt
  intro p q hp _ h hq
  obtain ⟨r, hr, hk⟩ := hs.exists_first hp
  have hlt := h r hr
  rw [hk] at hlt
  exact Ordering.isLE_of_eq_lt (TransCmp.lt_of_lt_of_isLE hlt hq)

end Valid

theorem Alike.pageFor_eq {s t : Store} (h : s.Alike t) (hs : s.Valid) (ht : t.Valid)
    (key : Bytes) : t.pageFor key = s.pageFor key := by
  rw [pageFor, pageFor, Front.length_eq _ _ (hs.leads_reaches key),
    Front.length_eq _ _ (ht.leads_reaches key)]
  have hmap : ∀ u : Store, (u.pages.takeWhile
      fun p => (s.order.compare p.first key).isLE).length =
      ((u.pages.map (Page.settled u.codec)).takeWhile
        fun p => (s.order.compare p.first key).isLE).length := by
    intro u
    rw [List.takeWhile_map, List.length_map]
    rfl
  rw [h.order, hmap, hmap, h.pages]

/-- The pages around the one whose range covers a key: all records before it are below the key, all
records after it are above. -/
theorem exists_cover {s : Store} (hs : s.Valid) (hne : s.pages ≠ []) (key : Bytes) :
    ∃ front p back, s.pages = front ++ p :: back ∧ front.length = s.pageFor key ∧
      (∀ r ∈ front.flatMap (Page.contents s.codec), s.order.compare r.key key = .lt) ∧
      (∀ r ∈ back.flatMap (Page.contents s.codec), s.order.compare r.key key = .gt) := by
  let reaches := fun p : Page => (s.order.compare p.first key).isLE
  have hleads : Front.Leads reaches s.pages := hs.leads_reaches key
  have hfor : s.pageFor key = (s.pages.takeWhile reaches).length - 1 := by
    rw [pageFor, Front.length_eq _ _ hleads]
  have hsplit : s.pages.takeWhile reaches ++ s.pages.dropWhile reaches = s.pages :=
    List.takeWhile_append_dropWhile
  have hback : ∀ r ∈ (s.pages.dropWhile reaches).flatMap (Page.contents s.codec),
      s.order.compare r.key key = .gt := by
    intro r hr
    obtain ⟨q, hq, hr⟩ := List.mem_flatMap.1 hr
    exact hs.gt_of_not_reaches ((List.dropWhile_sublist reaches).subset hq)
      (hleads.not_of_mem_dropWhile q hq) hr
  rcases List.eq_nil_or_concat (s.pages.takeWhile reaches) with hnil | ⟨front, p, hfront⟩
  · obtain ⟨p, back, hpages⟩ := List.exists_cons_of_ne_nil hne
    rw [hnil, List.nil_append] at hsplit
    refine ⟨[], p, back, hpages, by rw [hfor, hnil]; rfl, nofun, ?_⟩
    rw [hsplit, hpages, List.flatMap_cons] at hback
    exact fun r hr => hback r (List.mem_append_right _ hr)
  · rw [List.concat_eq_append] at hfront
    have hpages : s.pages = front ++ p :: s.pages.dropWhile reaches := by
      rw [hfront, List.append_assoc] at hsplit
      exact hsplit.symm
    refine ⟨front, p, s.pages.dropWhile reaches, hpages, ?_, ?_, hback⟩
    · rw [hfor, hfront]
      simp
    · intro r hr
      obtain ⟨q, hq, hr⟩ := List.mem_flatMap.1 hr
      have hp : (s.order.compare p.first key).isLE := by
        have hp : p ∈ s.pages.takeWhile reaches := by
          rw [hfront]
          exact List.mem_append_right front List.mem_cons_self
        exact List.all_eq_true.1 List.all_takeWhile p hp
      have hlt := hs.first_lt
      rw [hpages] at hlt
      exact TransCmp.lt_of_lt_of_isLE
        ((List.pairwise_append.1 hlt).2.2 q hq p List.mem_cons_self r hr) hp

/-- Loading a page gives its records and changes nothing but where it is. -/
theorem load_run {s : Store} (hs : s.Valid) (i : Nat) :
    ∃ t, (load i).run s = .ok ((s.pages[i]?.map (Page.contents s.codec)).getD []) t ∧ s.Alike t ∧
      t.Valid := by
  simp only [load, EStateM.run_bind, EStateM.run_get]
  cases hp : s.pages[i]? with
  | none => exact ⟨s, rfl, .refl s, hs⟩
  | some p =>
    have hsound : p.Sound s.codec := hs.sound p (List.mem_of_getElem? hp)
    rcases p.reload?_cases s.paging.verify hsound with ⟨hr, hrecords⟩ | hr
    · refine ⟨s, ?_, .refl s, hs⟩
      simp only [hr, hrecords, Option.getD_some, Option.map_some]
      rfl
    · refine ⟨_, ?_, Alike.set_page (q := p.settled s.codec) hp rfl
        { s.stats with reloads := s.stats.reloads + 1 }, hs.set_page hp p.sound_settled rfl _⟩
      simp only [hr]
      rfl

end Keyspan.Store
