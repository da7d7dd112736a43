import Keyspan.Proofs.Store.Append
import Keyspan.Proofs.Store.Parts
import Keyspan.Store.Seek
import Mathlib.Data.List.Forall2

/-!
Pages that went away, and pages that came back.

A store counts each page that leaves memory and each that returns to it, so the difference is the number
of pages that are away. This asks nothing of the store, and a call that fails on the way has counted what
it did. Looking for records and appending to them brings pages back and sends none away.
-/

set_option autoImplicit false
set_option relaxedAutoImplicit false

namespace Keyspan

namespace Page

variable {p q : Page}

/-- A page as it was, or back in memory. -/
def Returns (p q : Page) : Prop :=
  q = p ∨ p.isResident = false ∧ q.isResident = true

private theorem Returns.trans {r : Page} (h : p.Returns q) (k : q.Returns r) : p.Returns r := by
  rcases h with rfl | ⟨hp, hq⟩
  · exact k
  · rcases k with rfl | ⟨-, hr⟩
    · exact Or.inr ⟨hp, hq⟩
    · exact Or.inr ⟨hp, hr⟩

theorem evict?_resident (codec : Codec) (c : Compression) (p : Page) :
    (p.evict? codec c = .ok none ∧ p.isResident = false) ∨
      (∃ q, p.evict? codec c = .ok (some q) ∧ p.isResident = true ∧ q.isResident = false) ∨
      ∃ e, p.evict? codec c = .error e ∧ p.isResident = true ∧
        c.limit codec ≤ (Image.payload (p.contents codec)).length := by
  obtain ⟨first, body⟩ := p
  cases body with
  | evicted image => exact Or.inl ⟨rfl, rfl⟩
  | resident records =>
    right
    cases himage : Image.encode codec c records with
    | ok image =>
      refine Or.inl ⟨⟨first, .evicted image⟩, ?_, rfl, rfl⟩
      simp only [evict?, himage]
      rfl
    | error fault =>
      refine Or.inr ⟨fault, ?_, rfl, Nat.le_of_not_lt fun hlt => ?_⟩
      · simp only [evict?, himage]
        rfl
      · obtain ⟨image, hencode⟩ := Image.exists_encode hlt
        rw [contents, himage] at hencode
        cases hencode

theorem reload?_resident (codec : Codec) (verify : Bool) (p : Page) :
    (p.reload? codec verify = .ok none ∧ p.isResident = true) ∨
      (∃ q, p.reload? codec verify = .ok (some q) ∧ p.isResident = false ∧ q.isResident = true) ∨
      ∃ e, p.reload? codec verify = .error e := by
  obtain ⟨first, body⟩ := p
  cases body with
  | resident records => exact Or.inl ⟨rfl, rfl⟩
  | evicted image =>
    right
    cases hrecords : Image.decode codec verify image with
    | ok records =>
      refine Or.inl ⟨⟨first, .resident records⟩, ?_, rfl, rfl⟩
      simp only [reload?, hrecords]
      rfl
    | error fault =>
      refine Or.inr ⟨fault, ?_⟩
      simp only [reload?, hrecords]
      rfl

end Page

namespace Store

variable {s t u : Store} {i : Nat}

/-- The number of pages that are not in memory. -/
def awayPages (s : Store) : Nat :=
  s.pages.countP fun p => !p.isResident

/-- By how much the counters are off the number of pages that are away. -/
def imbalance (s : Store) : Int :=
  s.stats.evictions - s.stats.reloads - s.awayPages

def AwayAt (s : Store) (i : Nat) : Prop :=
  ∀ p, s.pages[i]? = some p → p.isResident = false

/-- The payload of every page in memory is below what the store's compression takes. -/
def Compressible (s : Store) : Prop :=
  ∀ p ∈ s.pages, p.isResident = true →
    (Image.payload (p.contents s.codec)).length < s.paging.compression.limit s.codec

instance (s : Store) : Decidable s.Compressible :=
  inferInstanceAs (Decidable (∀ p ∈ s.pages, p.isResident = true →
    (Image.payload (p.contents s.codec)).length < s.paging.compression.limit s.codec))

/-- One store counts one more eviction than the other, of a page that was in memory at this index and no
longer is. -/
def GivesUp (s : Store) (i : Nat) (t : Store) : Prop :=
  ∃ p q, s.pages[i]? = some p ∧ p.isResident = true ∧ q.isResident = false ∧
    t = { s with pages := s.pages.set i q, stats.evictions := s.stats.evictions + 1 }

/-- One store counts one more reload than the other, of a page that was away at this index and no longer
is. -/
def GetsBack (s : Store) (i : Nat) (t : Store) : Prop :=
  ∃ p q, s.pages[i]? = some p ∧ p.isResident = false ∧ q.isResident = true ∧
    t = { s with pages := s.pages.set i q, stats.reloads := s.stats.reloads + 1 }

/-- A store in which pages may have come back into memory, and none has been evicted. -/
structure Returns (s t : Store) : Prop where
  evictions : t.stats.evictions = s.stats.evictions
  pages : List.Forall₂ Page.Returns s.pages t.pages

/-- A store in which one page or more in memory may have taken the place of a page, and none has been
evicted. -/
structure Absorbs (s t : Store) : Prop where
  evictions : t.stats.evictions = s.stats.evictions
  pages : t.pages = s.pages ∨ ∃ i new, new ≠ [] ∧ (∀ p ∈ new, p.isResident = true) ∧
    t.pages = s.pages.take i ++ new ++ s.pages.drop (i + 1)

namespace Returns

private theorem refl (s : Store) : s.Returns s :=
  ⟨rfl, List.forall₂_same.2 fun _ _ => Or.inl rfl⟩

private theorem trans (h : s.Returns t) (k : t.Returns u) : s.Returns u := by
  refine ⟨k.evictions.trans h.evictions, ?_⟩
  have hpages := h.pages
  have kpages := k.pages
  generalize s.pages = l at hpages
  generalize t.pages = m at hpages kpages
  generalize u.pages = n at kpages
  induction hpages generalizing n with
  | nil =>
    cases kpages
    exact .nil
  | cons hp _ ih =>
    cases kpages with
    | cons kp hrest => exact .cons (hp.trans kp) (ih _ hrest)

end Returns

private theorem residentPages_eq_zero (h : ∀ i, s.AwayAt i) : s.residentPages = 0 := by
  refine List.countP_eq_zero.2 fun p hp => ?_
  obtain ⟨i, hi⟩ := List.mem_iff_getElem?.1 hp
  rw [h i p hi]
  exact Bool.false_ne_true

theorem countP_set {p q : Page} (f : Page → Bool) (hp : s.pages[i]? = some p) :
    (s.pages.set i q).countP f + (f p).toNat = s.pages.countP f + (f q).toNat := by
  obtain ⟨hi, rfl⟩ := List.getElem?_eq_some_iff.1 hp
  have hpos : f s.pages[i] = true → 0 < s.pages.countP f := fun hf =>
    List.countP_pos_iff.2 ⟨_, List.getElem_mem hi, hf⟩
  rw [List.countP_set hi]
  cases hf : f s.pages[i] with
  | false => cases f q <;> rfl
  | true =>
    have := hpos hf
    cases f q <;> simp only [if_true, Bool.false_eq_true, if_false, Bool.toNat_true,
      Bool.toNat_false] <;> omega

namespace GivesUp

private theorem residentPages (h : s.GivesUp i t) : t.residentPages + 1 = s.residentPages := by
  obtain ⟨p, q, hp, hin, hout, rfl⟩ := h
  have hcount := countP_set (q := q) Page.isResident hp
  rw [hin, hout] at hcount
  exact hcount

private theorem imbalance (h : s.GivesUp i t) : t.imbalance = s.imbalance := by
  obtain ⟨p, q, hp, hin, hout, rfl⟩ := h
  have hcount := countP_set (q := q) (fun p => !p.isResident) hp
  simp only [hin, hout, Bool.not_true, Bool.not_false, Bool.toNat_false, Bool.toNat_true] at hcount
  simp only [Store.imbalance, awayPages]
  omega

private theorem length_pages (h : s.GivesUp i t) : t.pages.length = s.pages.length := by
  obtain ⟨p, q, -, -, -, rfl⟩ := h
  exact List.length_set

private theorem awayAt {j : Nat} (h : s.GivesUp i t) (hj : j = i ∨ s.AwayAt j) : t.AwayAt j := by
  obtain ⟨p, q, hp, hin, hout, rfl⟩ := h
  intro r hr
  by_cases hij : i = j
  · obtain rfl := hij
    rw [List.getElem?_set_self (List.getElem?_eq_some_iff.1 hp).1] at hr
    exact Option.some.inj hr ▸ hout
  · rw [List.getElem?_set_ne hij] at hr
    exact hj.resolve_left (fun h => hij h.symm) r hr

theorem ne (h : s.GivesUp i t) : t ≠ s := by
  rintro rfl
  have := h.residentPages
  omega

private theorem compressible (h : s.GivesUp i t) (hs : s.Compressible) : t.Compressible := by
  obtain ⟨p, q, -, -, hout, rfl⟩ := h
  intro r hr hin
  rcases List.mem_or_eq_of_mem_set hr with hr | rfl
  · exact hs r hr hin
  · rw [hout] at hin
    cases hin

end GivesUp

namespace GetsBack

private theorem imbalance (h : s.GetsBack i t) : t.imbalance = s.imbalance := by
  obtain ⟨p, q, hp, hout, hin, rfl⟩ := h
  have hcount := countP_set (q := q) (fun p => !p.isResident) hp
  simp only [hin, hout, Bool.not_true, Bool.not_false, Bool.toNat_false, Bool.toNat_true] at hcount
  simp only [Store.imbalance, awayPages]
  omega

private theorem length_pages (h : s.GetsBack i t) : t.pages.length = s.pages.length := by
  obtain ⟨p, q, -, -, -, rfl⟩ := h
  exact List.length_set

theorem isResident (h : s.GetsBack i t) {p : Page} (hp : t.pages[i]? = some p) :
    p.isResident = true := by
  obtain ⟨q, r, hq, -, hin, rfl⟩ := h
  rw [List.getElem?_set_self (List.getElem?_eq_some_iff.1 hq).1] at hp
  exact Option.some.inj hp ▸ hin

private theorem returns (h : s.GetsBack i t) : s.Returns t := by
  obtain ⟨p, q, hp, hout, hin, rfl⟩ := h
  refine ⟨rfl, List.forall₂_iff_get.2 ⟨List.length_set.symm, fun j hj hj' => ?_⟩⟩
  rw [List.get_eq_getElem, List.get_eq_getElem, List.getElem_set]
  split
  next hij =>
    subst hij
    exact Or.inr ⟨(List.getElem?_eq_some_iff.1 hp).2 ▸ hout, hin⟩
  next => exact Or.inl rfl

end GetsBack

/-- Evicting a page that is away or not there, one that is in memory, and one that is too large. -/
theorem evictPage_cases (s : Store) (i : Nat) :
    ((evictPage i).run s = .ok false s ∧ s.AwayAt i) ∨
      (∃ t, (evictPage i).run s = .ok true t ∧ s.GivesUp i t) ∨
      ∃ e, (evictPage i).run s = .error e s ∧ ¬ s.Compressible := by
  simp only [evictPage, EStateM.run_bind, EStateM.run_get]
  cases hp : s.pages[i]? with
  | none => exact Or.inl ⟨rfl, fun p h => by rw [hp] at h; cases h⟩
  | some p =>
    dsimp only
    rcases p.evict?_resident s.codec s.paging.compression with
      ⟨hev, hout⟩ | ⟨q, hev, hin, hout⟩ | ⟨e, hev, hin, hbig⟩
    · rw [hev]
      exact Or.inl ⟨rfl, fun r hr => Option.some.inj (hp.symm.trans hr) ▸ hout⟩
    · rw [hev]
      exact Or.inr (Or.inl ⟨_, rfl, p, q, hp, hin, hout, rfl⟩)
    · rw [hev]
      refine Or.inr (Or.inr ⟨e, rfl, fun hfit => ?_⟩)
      exact Nat.not_lt.2 hbig (hfit p (List.mem_of_getElem? hp) hin)

theorem load_cases (s : Store) (i : Nat) :
    (∃ records, (load i).run s = .ok records s ∧
        ∀ p, s.pages[i]? = some p → p.isResident = true) ∨
      (∃ records t, (load i).run s = .ok records t ∧ s.GetsBack i t) ∨
      ∃ e, (load i).run s = .error e s := by
  simp only [load, EStateM.run_bind, EStateM.run_get]
  cases hp : s.pages[i]? with
  | none => exact Or.inl ⟨[], rfl, by simp⟩
  | some p =>
    dsimp only
    rcases p.reload?_resident s.codec s.paging.verify with ⟨hre, hin⟩ | ⟨q, hre, hout, hin⟩ | ⟨e, hre⟩
    · rw [hre]
      exact Or.inl ⟨_, rfl, fun r hr => Option.some.inj hr ▸ hin⟩
    · rw [hre]
      exact Or.inr (Or.inl ⟨_, _, rfl, p, q, hp, hout, hin, rfl⟩)
    · rw [hre]
      exact Or.inr (Or.inr ⟨e, rfl⟩)

theorem keeps_imbalance_evictPage (i : Nat) : Keeps imbalance (evictPage i) := by
  intro s
  rcases evictPage_cases s i with ⟨hrun, -⟩ | ⟨t, hrun, h⟩ | ⟨e, hrun, -⟩
  · rw [hrun]
    rfl
  · rw [hrun]
    exact h.imbalance
  · rw [hrun]
    rfl

private theorem keeps_imbalance_load (i : Nat) : Keeps imbalance (load i) := by
  intro s
  rcases load_cases s i with ⟨records, hrun, -⟩ | ⟨records, t, hrun, h⟩ | ⟨e, hrun⟩
  · rw [hrun]
    rfl
  · rw [hrun]
    exact h.imbalance
  · rw [hrun]
    rfl

theorem keeps_imbalance_seek (m : Seek) : Keeps imbalance (seek m) := by
  refine .bind ((Keeps.compositional imbalance).locate keeps_imbalance_load m) fun found => ?_
  cases found with
  | none => exact .pure _
  | some r => exact .bind (fun _ => rfl) fun _ => .pure _

theorem append_cases (s : Store) (key : Bytes) (v : Version) :
    (∃ (i : Nat) (t : Store) (new : List Page), (t = s ∨ s.GetsBack i t) ∧
        (∀ p, t.pages[i]? = some p → p.isResident = true) ∧ new ≠ [] ∧
        (∀ p ∈ new, p.isResident = true) ∧ (append key v).run s =
          .ok () { t with pages := t.pages.take i ++ new ++ t.pages.drop (i + 1) }) ∨
      ∃ e, (append key v).run s = .error e s := by
  by_cases hne : s.pages = []
  · have hrun := append_of_empty hne key v
    refine Or.inl ⟨0, s, [⟨key, .resident [⟨key, [v]⟩]⟩], Or.inl rfl, ?_, List.cons_ne_nil _ _,
      List.forall_mem_singleton.2 rfl, ?_⟩
    · rw [hne]
      exact nofun
    · rw [hrun, hne]
      rfl
  · have hlt := pageFor_lt hne key
    -- the page is there, so something comes in its place
    have hfiled : ∀ (t : Store) (records : List Record), t.pages.length = s.pages.length →
        t.pages[s.pageFor key]?.toList.flatMap (Page.file t.order t.pageLimit key v records) ≠ [] ∧
          ∀ p ∈ t.pages[s.pageFor key]?.toList.flatMap (Page.file t.order t.pageLimit key v records),
            p.isResident = true := by
      intro t records hlen
      obtain ⟨p, hget⟩ : ∃ p, t.pages[s.pageFor key]? = some p :=
        ⟨_, List.getElem?_eq_getElem (hlen ▸ hlt)⟩
      rw [hget, Option.toList_some, List.flatMap_singleton]
      exact ⟨Page.file_ne_nil, fun _ => Page.isResident_of_mem_file⟩
    rcases load_cases s (s.pageFor key) with
      ⟨records, hload, hin⟩ | ⟨records, t, hload, h⟩ | ⟨e, hload⟩
    · obtain ⟨hnew, hresident⟩ := hfiled s records rfl
      exact Or.inl ⟨_, s, _, Or.inl rfl, hin, hnew, hresident, append_of_load hne v hload⟩
    · obtain ⟨hnew, hresident⟩ := hfiled t records h.length_pages
      exact Or.inl ⟨_, t, _, Or.inr h, fun _ => h.isResident, hnew, hresident,
        append_of_load hne v hload⟩
    · have hempty : ¬ s.pages.isEmpty = true := by simpa using hne
      refine Or.inr ⟨e, ?_⟩
      simp only [append, EStateM.run_bind, EStateM.run_get, if_neg hempty, hload]

theorem awayPages_splice {new : List Page} (hin : ∀ p, s.pages[i]? = some p → p.isResident = true)
    (hnew : ∀ p ∈ new, p.isResident = true) :
    awayPages { s with pages := s.pages.take i ++ new ++ s.pages.drop (i + 1) } = s.awayPages := by
  have hnone : new.countP (fun p => !p.isResident) = 0 :=
    List.countP_eq_zero.2 fun p hp => by rw [hnew p hp]; exact Bool.false_ne_true
  have hsplit : s.awayPages = (s.pages.take i).countP (fun p => !p.isResident) +
      (s.pages.drop i).countP (fun p => !p.isResident) := by
    rw [← List.countP_append, List.take_append_drop, awayPages]
  rw [awayPages, List.countP_append, List.countP_append, hnone, hsplit]
  cases hp : s.pages[i]? with
  | none =>
    have hlen := List.getElem?_eq_none_iff.1 hp
    rw [List.drop_eq_nil_of_le hlen, List.drop_eq_nil_of_le (Nat.le_succ_of_le hlen), Nat.add_zero]
  | some p =>
    obtain ⟨hi, rfl⟩ := List.getElem?_eq_some_iff.1 hp
    rw [List.drop_eq_getElem_cons hi, List.countP_cons, hin _ hp]
    rfl

theorem keeps_imbalance_append (key : Bytes) (v : Version) : Keeps imbalance (append key v) := by
  intro s
  rcases append_cases s key v with ⟨i, t, new, ht, hin, -, hnew, hrun⟩ | ⟨e, hrun⟩
  · have hstep : t.imbalance = s.imbalance := by
      rcases ht with rfl | h
      · rfl
      · exact h.imbalance
    rw [hrun, ← hstep]
    simp only [finalState, imbalance, awayPages_splice hin hnew]
  · rw [hrun]
    rfl

theorem evictions_eq_of_imbalance (h : s.imbalance = 0) :
    s.stats.evictions = s.stats.reloads + s.awayPages := by
  rw [imbalance] at h
  omega

/-- A flag tells whether a page was in memory; in either case it no longer is, and no other page is back
in memory. -/
theorem evictPage_ok {i : Nat} {evicted : Bool} (h : (evictPage i).run s = .ok evicted t) :
    evicted.toNat + t.residentPages = s.residentPages ∧ t.pages.length = s.pages.length ∧
      ∀ j, j = i ∨ s.AwayAt j → t.AwayAt j := by
  rcases evictPage_cases s i with ⟨hrun, haway⟩ | ⟨u, hrun, hgives⟩ | ⟨e, hrun, -⟩
  · rw [hrun] at h
    cases h
    refine ⟨Nat.zero_add _, rfl, fun j hj => ?_⟩
    rcases hj with rfl | hj
    · exact haway
    · exact hj
  · rw [hrun] at h
    cases h
    exact ⟨(Nat.add_comm _ _).trans hgives.residentPages, hgives.length_pages,
      fun j hj => hgives.awayAt hj⟩
  · rw [hrun] at h
    cases h

theorem evictPages_ok {l : List Nat} {n : Nat} (h : (evictPages l).run s = .ok n t) :
    n + t.residentPages = s.residentPages ∧ t.pages.length = s.pages.length ∧
      ∀ i, i ∈ l ∨ s.AwayAt i → t.AwayAt i := by
  induction l generalizing s n with
  | nil =>
    cases h
    exact ⟨Nat.zero_add _, rfl, fun i hi => hi.resolve_left List.not_mem_nil⟩
  | cons j l ih =>
    rw [evictPages, EStateM.run_bind] at h
    cases hpage : (evictPage j).run s with
    | error e u =>
      rw [hpage] at h
      cases h
    | ok evicted u =>
      rw [hpage] at h
      dsimp only at h
      rw [EStateM.run_bind] at h
      cases hrest : (evictPages l).run u with
      | error e v =>
        rw [hrest] at h
        cases h
      | ok m v =>
        rw [hrest] at h
        cases h
        obtain ⟨hfirst, hlen, haway⟩ := evictPage_ok hpage
        obtain ⟨hcount, hlen', haway'⟩ := ih hrest
        refine ⟨by omega, hlen'.trans hlen, fun i hi => haway' i ?_⟩
        rcases hi with hi | hi
        · rcases List.mem_cons.1 hi with rfl | hi
          · exact Or.inr (haway i (Or.inl rfl))
          · exact Or.inl hi
        · exact Or.inr (haway i (Or.inr hi))

theorem evictAll_ok {n : Nat} (h : evictAll.run s = .ok n t) :
    n = s.residentPages ∧ t.residentPages = 0 := by
  rw [evictAll, EStateM.run_bind, EStateM.run_get] at h
  obtain ⟨hcount, hlen, hall⟩ := evictPages_ok h
  have hzero : t.residentPages = 0 := by
    refine residentPages_eq_zero fun i => hall i ?_
    by_cases hi : i < s.pages.length
    · exact Or.inl (List.mem_range.2 hi)
    · refine Or.inr fun p hp => ?_
      rw [List.getElem?_eq_none (Nat.le_of_not_lt hi)] at hp
      cases hp
  exact ⟨by omega, hzero⟩

/-- A call that succeeds where every page in memory can be compressed, and keeps it so. -/
def Succeeds {α : Type} (call : StoreM α) : Prop :=
  ∀ s : Store, s.Compressible → ∃ x t, call.run s = .ok x t ∧ t.Compressible

theorem Succeeds.compositional : Compositional fun _ call => Succeeds call where
  pure a s hs := ⟨a, s, rfl, hs⟩
  get s hs := ⟨s, s, rfl, hs⟩
  bind hx hf s hs := by
    obtain ⟨a, t, hrun, ht⟩ := hx s hs
    rw [EStateM.run_bind, hrun]
    exact hf a t ht

theorem succeeds_evictPage (i : Nat) : Succeeds (evictPage i) := by
  intro s hs
  rcases evictPage_cases s i with ⟨hrun, -⟩ | ⟨t, hrun, h⟩ | ⟨e, -, hbig⟩
  · exact ⟨false, s, hrun, hs⟩
  · exact ⟨true, t, hrun, h.compressible hs⟩
  · exact absurd hs hbig

/-- Looking for a record brings pages back and evicts none, also where it fails. -/
theorem moves_seek (m : Seek) : Moves Returns (seek m) := by
  have hparts : Compositional fun _ (call : StoreM _) => Moves Returns call :=
    Moves.compositional Returns.refl fun _ _ _ => Returns.trans
  refine hparts.bind (hparts.locate (fun i s => ?_) m) fun found => ?_
  · rcases load_cases s i with ⟨records, hrun, -⟩ | ⟨records, t, hrun, h⟩ | ⟨e, hrun⟩
    · rw [hrun]
      exact .refl s
    · rw [hrun]
      exact h.returns
    · rw [hrun]
      exact .refl s
  · cases found with
    | none => exact hparts.pure _
    | some r => exact hparts.bind (fun s => ⟨rfl, (Returns.refl s).pages⟩) fun _ => hparts.pure _

theorem moves_append (key : Bytes) (v : Version) : Moves Absorbs (append key v) := by
  intro s
  rcases append_cases s key v with ⟨i, t, new, ht, -, hne, hnew, hrun⟩ | ⟨e, hrun⟩
  · rw [hrun]
    rcases ht with rfl | ⟨p, q, -, -, -, rfl⟩
    · exact ⟨rfl, Or.inr ⟨i, new, hne, hnew, rfl⟩⟩
    · refine ⟨rfl, Or.inr ⟨i, new, hne, hnew, ?_⟩⟩
      simp only [finalState, List.take_set_of_le (Nat.le_refl i),
        List.drop_set_of_lt (Nat.lt_succ_self i)]
  · rw [hrun]
    exact ⟨rfl, Or.inl rfl⟩

end Store

end Keyspan
