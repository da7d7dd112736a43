import Mathlib.Data.List.Forall2
import Keyspan.Proofs.Store.Layout

/-!
Seeks that load a page and try again.

A lookup goes through pages as they are, and gives up at the first one that is away. It is made again once
that page is back, until it gets through. A page stays in memory while the others come back and none is
empty, so a lookup gives up at most twice, and what it then finds is what a seek finds that loads each
page when it comes to it.
-/

set_option autoImplicit false
set_option relaxedAutoImplicit false

namespace Keyspan

open Std Flat

/-- The most pages that a seek loads. -/
def Seek.reloadLimit : Seek → Nat
  | first | last | exact _ => 1
  | atOrAfter _ | after _ | atOrBefore _ | before _ => 2

namespace Store

/-- What a lookup comes to: a record or none, or a page that it cannot do without. -/
inductive Lookup
  | found (r : Option Record)
  | needs (i : Nat)

structure Look where
  page : Nat
  pick : List Record → Option Record

/-- The records of a page, if they are in memory. Where there is no page there are no records. -/
def held? (s : Store) (i : Nat) : Option (List Record) :=
  match s.pages[i]? with
  | none => some []
  | some p => p.records?

def contentsAt (s : Store) (i : Nat) : List Record :=
  (s.pages[i]?.map (Page.contents s.codec)).getD []

/-- Looks at pages in turn, up to the first record that is picked or the first page that is away. -/
def look (s : Store) : List Look → Lookup
  | [] => .found none
  | x :: rest =>
    match s.held? x.page with
    | none => .needs x.page
    | some records =>
      match x.pick records with
      | some r => .found (some r)
      | none => s.look rest

def loadLook : List Look → StoreM (Option Record)
  | [] => pure none
  | x :: rest => do
    match x.pick (← load x.page) with
    | some r => pure (some r)
    | none => loadLook rest

/-- The pages that a seek looks at, and what it picks there: from the page that covers its key the nearest
record on its side, from the pages beyond that one the record at their near end. -/
def route (s : Store) (m : Seek) : List Look :=
  match m with
  | .first => (List.range' 0 s.pages.length).map fun i => ⟨i, List.head?⟩
  | .last => (List.range s.pages.length).reverse.map fun i => ⟨i, List.getLast?⟩
  | .exact key =>
    [⟨s.pageFor key, fun l => (Front.next? (fun r => (s.order.compare r.key key).isLT) l).filter
      fun r => m.accepts s.order r⟩]
  | .atOrAfter key | .after key =>
    ⟨s.pageFor key, Front.next? fun r => !m.accepts s.order r⟩ ::
      (List.range' (s.pageFor key + 1) (s.pages.length - (s.pageFor key + 1))).map
        fun i => ⟨i, List.head?⟩
  | .atOrBefore key | .before key =>
    ⟨s.pageFor key, Front.last? fun r => m.accepts s.order r⟩ ::
      (List.range (s.pageFor key)).reverse.map fun i => ⟨i, List.getLast?⟩

def lookup (m : Seek) (s : Store) : Lookup :=
  s.look (s.route m)

/-- Lookups are made until one gets through, and each page that one of them needs is loaded. -/
inductive Retries (look : Store → Lookup) : Store → List Nat → Option Record → Store → Prop
  | found {s : Store} {r : Option Record} (h : look s = .found r) : Retries look s [] r s
  | again {s t u : Store} {i : Nat} {records : List Record} {loads : List Nat} {r : Option Record}
    (h : look s = .needs i) (loaded : (load i).run s = .ok records t)
    (rest : Retries look t loads r u) : Retries look s (i :: loads) r u

def trail (s : Store) : List Look → List Nat
  | [] => []
  | x :: rest =>
    x.page :: if (x.pick (s.contentsAt x.page)).isSome then [] else s.trail rest

variable {s t : Store} {i : Nat} {records : List Record}

private theorem Alike.contentsAt_eq (h : s.Alike t) (i : Nat) : t.contentsAt i = s.contentsAt i := by
  rw [contentsAt, contentsAt, h.contents_getElem?]

private theorem Alike.trail_eq (h : s.Alike t) (l : List Look) : t.trail l = s.trail l := by
  induction l with
  | nil => rfl
  | cons x rest ih => rw [trail, trail, h.contentsAt_eq, ih]

private theorem load_of_held? (h : s.held? i = some records) : (load i).run s = .ok records s := by
  simp only [load, EStateM.run_bind, EStateM.run_get]
  rw [held?] at h
  cases hp : s.pages[i]? with
  | none =>
    rw [hp] at h
    obtain rfl := Option.some.inj h
    rfl
  | some p =>
    rw [hp] at h
    obtain ⟨first, body⟩ := p
    cases body with
    | evicted image => cases h
    | resident all =>
      obtain rfl := Option.some.inj h
      rfl

theorem load_of_away (hs : s.Valid) (h : s.held? i = none) :
    ∃ p, s.pages[i]? = some p ∧ p.isResident = false ∧
      (load i).run s = .ok (s.contentsAt i) { s with
        pages := s.pages.set i (p.settled s.codec)
        stats.reloads := s.stats.reloads + 1 } := by
  rw [held?] at h
  cases hp : s.pages[i]? with
  | none =>
    rw [hp] at h
    cases h
  | some p =>
    rw [hp] at h
    have haway : p.isResident = false := by
      obtain ⟨first, body⟩ := p
      cases body with
      | resident all => cases h
      | evicted image => rfl
    refine ⟨p, rfl, haway, ?_⟩
    simp only [load, EStateM.run_bind, EStateM.run_get, hp, contentsAt]
    rcases p.reload?_cases s.paging.verify (hs.sound p (List.mem_of_getElem? hp)) with
      ⟨-, hrecords⟩ | hreload
    · cases h.symm.trans hrecords
    · simp only [hreload]
      rfl

private theorem held?_of_load (hs : s.Valid) {j : Nat} {more : List Record}
    (hload : (load j).run s = .ok more t) (h : s.held? i = some records) :
    t.held? i = some records := by
  cases hj : s.held? j with
  | some all =>
    rw [load_of_held? hj] at hload
    obtain ⟨-, rfl⟩ := EStateM.Result.ok.inj hload
    exact h
  | none =>
    obtain ⟨p, hp, -, hrun⟩ := load_of_away hs hj
    rw [hrun] at hload
    obtain ⟨-, rfl⟩ := EStateM.Result.ok.inj hload
    have hne : j ≠ i := by
      rintro rfl
      cases hj.symm.trans h
    have hsame : (s.pages.set j (p.settled s.codec))[i]? = s.pages[i]? := List.getElem?_set_ne hne
    rw [held?]
    dsimp only
    rw [hsame]
    exact h

private theorem held?_loaded (hs : s.Valid) (h : s.held? i = none)
    (hload : (load i).run s = .ok records t) : t.held? i = some records := by
  obtain ⟨p, hp, -, hrun⟩ := load_of_away hs h
  rw [hrun] at hload
  obtain ⟨rfl, rfl⟩ := EStateM.Result.ok.inj hload
  obtain ⟨hi, -⟩ := List.getElem?_eq_some_iff.1 hp
  have hback : (s.pages.set i (p.settled s.codec))[i]? = some (p.settled s.codec) :=
    List.getElem?_set_self hi
  rw [held?, contentsAt, hp]
  dsimp only
  rw [hback]
  rfl

private theorem contentsAt_of_held? (h : s.held? i = some records) (hs : s.Valid) :
    s.contentsAt i = records := by
  obtain ⟨t, hrun, -⟩ := load_run hs i
  rw [load_of_held? h] at hrun
  exact (EStateM.Result.ok.inj hrun).1.symm

theorem Retries.congr {f g : Store → Lookup} {loads : List Nat} {r : Option Record}
    (h : Retries f s loads r t) (hs : s.Valid)
    (hfg : ∀ u, s.Alike u → u.Valid → f u = g u) : Retries g s loads r t := by
  induction h with
  | found h => exact .found ((hfg _ (.refl _) hs).symm.trans h)
  | again h loaded _ ih =>
    obtain ⟨v, hrun, hsv, hv⟩ := load_run hs _
    rw [loaded] at hrun
    obtain ⟨-, rfl⟩ := EStateM.Result.ok.inj hrun
    refine .again ((hfg _ (.refl _) hs).symm.trans h) loaded (ih hv fun u htu hu => ?_)
    exact hfg u (hsv.trans htu) hu

theorem Retries.cons {x : Look} {rest : List Look} {loads : List Nat} {r : Option Record}
    (h : Retries (look · rest) s loads r t) (hs : s.Valid) (hheld : s.held? x.page = some records)
    (hpick : x.pick records = none) : Retries (look · (x :: rest)) s loads r t := by
  have hsame : ∀ {u : Store}, u.held? x.page = some records → u.look (x :: rest) = u.look rest := by
    intro u hu
    rw [look, hu]
    simp only [hpick]
  induction h with
  | found h => exact .found ((hsame hheld).trans h)
  | again h loaded _ ih =>
    obtain ⟨v, hrun, -, hv⟩ := load_run hs _
    rw [loaded] at hrun
    obtain ⟨-, rfl⟩ := EStateM.Result.ok.inj hrun
    exact .again ((hsame hheld).trans h) loaded (ih hv (held?_of_load hs loaded hheld))

/-- Lookups over these pages get through. Each page that they need is loaded once, and they come to what
the look comes to that loads every page first. -/
theorem exists_retries (hs : s.Valid) (l : List Look) :
    ∃ loads r t, Retries (look · l) s loads r t ∧ (loadLook l).run s = .ok r t ∧ s.Alike t ∧
      t.Valid ∧ loads.Sublist (s.trail l) ∧ (∀ i ∈ loads, s.held? i = none) ∧
      t.stats.reloads = s.stats.reloads + loads.length := by
  induction l generalizing s with
  | nil => exact ⟨[], none, s, .found rfl, rfl, .refl s, hs, .slnil, nofun, rfl⟩
  | cons x rest ih =>
    -- from a store that has the first of the pages in memory
    have hfrom : ∀ {u : Store}, u.Valid → u.held? x.page = some (s.contentsAt x.page) → s.Alike u →
        ∃ loads r t, Retries (look · (x :: rest)) u loads r t ∧
          (match x.pick (s.contentsAt x.page) with
            | some r => pure (some r)
            | none => loadLook rest : StoreM (Option Record)).run u = .ok r t ∧ u.Alike t ∧ t.Valid ∧
          loads.Sublist (if (x.pick (s.contentsAt x.page)).isSome then [] else s.trail rest) ∧
          (∀ i ∈ loads, u.held? i = none) ∧
          t.stats.reloads = u.stats.reloads + loads.length := by
      intro u hu hheld hsu
      cases hpick : x.pick (s.contentsAt x.page) with
      | some r =>
        have hlook : u.look (x :: rest) = .found (some r) := by
          rw [look, hheld]
          simp only [hpick]
        exact ⟨[], some r, u, .found hlook, rfl, .refl u, hu, .slnil, nofun, rfl⟩
      | none =>
        obtain ⟨loads, r, t, hretries, hrun, hut, ht, hsub, haway, hcount⟩ := ih hu
        rw [hsu.trail_eq] at hsub
        exact ⟨loads, r, t, hretries.cons hu hheld hpick, hrun, hut, ht, hsub, haway, hcount⟩
    cases hheld : s.held? x.page with
    | some records =>
      have hcontents := contentsAt_of_held? hheld hs
      obtain ⟨loads, r, t, hretries, hrun, hst, ht, hsub, haway, hcount⟩ :=
        hfrom hs (by rw [hheld, hcontents]) (.refl s)
      refine ⟨loads, r, t, hretries, ?_, hst, ht, hsub.cons x.page, haway, hcount⟩
      rw [loadLook, EStateM.run_bind, load_of_held? hheld, ← hcontents]
      exact hrun
    | none =>
      obtain ⟨p, hp, -, hload⟩ := load_of_away hs hheld
      obtain ⟨u, hrun', hsu, hu⟩ := load_run hs x.page
      rw [hload] at hrun'
      obtain ⟨-, rfl⟩ := EStateM.Result.ok.inj hrun'
      obtain ⟨loads, r, t, hretries, hrun, hut, ht, hsub, haway, hcount⟩ :=
        hfrom hu (held?_loaded hs hheld hload) hsu
      have hneeds : s.look (x :: rest) = .needs x.page := by rw [look, hheld]
      refine ⟨x.page :: loads, r, t, .again hneeds hload hretries, ?_, hsu.trans hut, ht,
        hsub.cons_cons x.page, ?_, ?_⟩
      · rw [loadLook, EStateM.run_bind, hload]
        exact hrun
      · intro i hi
        rcases List.mem_cons.1 hi with rfl | hi
        · exact hheld
        · cases hsi : s.held? i with
          | none => rfl
          | some records => cases (haway i hi).symm.trans (held?_of_load hs hload hsi)
      · rw [hcount, List.length_cons]
        dsimp only
        omega

private theorem firstFrom_eq (isFront : Record → Bool) (count i : Nat) :
    firstFrom isFront count i =
      loadLook ((List.range' i count).map fun j => ⟨j, Front.next? isFront⟩) := by
  induction count generalizing i with
  | zero => rfl
  | succ count ih =>
    rw [List.range'_succ, List.map_cons, firstFrom, loadLook]
    refine bind_congr fun records => ?_
    cases hnext : Front.next? isFront records with
    | some r => simp only [hnext]
    | none =>
      simp only [hnext]
      exact ih (i + 1)

private theorem lastAmong_eq (isFront : Record → Bool) (count : Nat) :
    lastAmong isFront count =
      loadLook ((List.range count).reverse.map fun j => ⟨j, Front.last? isFront⟩) := by
  induction count with
  | zero => rfl
  | succ count ih =>
    rw [List.range_succ, List.reverse_concat, List.map_cons, lastAmong, loadLook]
    refine bind_congr fun records => ?_
    cases hlast : Front.last? isFront records with
    | some r => simp only [hlast]
    | none =>
      simp only [hlast]
      exact ih

def SameLook (s : Store) (x y : Look) : Prop :=
  x.page = y.page ∧ x.pick (s.contentsAt x.page) = y.pick (s.contentsAt y.page)

private theorem loadLook_congr (hs : s.Valid) {l m : List Look} (h : List.Forall₂ s.SameLook l m) :
    (loadLook l).run s = (loadLook m).run s := by
  induction l generalizing s m with
  | nil =>
    cases h
    rfl
  | cons x l ih =>
    obtain ⟨y, m, ⟨hpage, hpick⟩, hrest, rfl⟩ := List.forall₂_cons_left_iff.1 h
    obtain ⟨t, hload, hst, ht⟩ := load_run hs x.page
    have hsame : t.SameLook = s.SameLook := by
      funext a b
      rw [SameLook, SameLook, hst.contentsAt_eq, hst.contentsAt_eq]
    rw [← hpage] at hpick
    rw [loadLook, loadLook, EStateM.run_bind, EStateM.run_bind, ← hpage, hload]
    dsimp only
    rw [show (s.pages[x.page]?.map (Page.contents s.codec)).getD [] = s.contentsAt x.page from rfl,
      hpick]
    cases y.pick (s.contentsAt x.page) with
    | some r => rfl
    | none => exact ih ht (hsame ▸ hrest)

private theorem contentsAt_ne_nil (hs : s.Valid) (hi : i < s.pages.length) : s.contentsAt i ≠ [] := by
  rw [contentsAt, List.getElem?_eq_getElem hi]
  exact hs.contents_ne_nil (List.getElem_mem hi)

theorem lt_of_mem_contentsAt (hs : s.Valid) {key : Bytes} (hi : i < s.pageFor key) {r : Record}
    (hr : r ∈ s.contentsAt i) : s.order.compare r.key key = .lt := by
  rw [contentsAt] at hr
  cases hp : s.pages[i]? with
  | none =>
    rw [hp] at hr
    cases hr
  | some p =>
    rw [hp] at hr
    obtain ⟨front, q, back, hpages, hlen, hlow, -⟩ :=
      exists_cover hs (List.ne_nil_of_mem (List.mem_of_getElem? hp)) key
    rw [hpages, List.getElem?_append_left (by omega)] at hp
    exact hlow r (List.mem_flatMap.2 ⟨p, List.mem_of_getElem? hp, hr⟩)

theorem gt_of_mem_contentsAt (hs : s.Valid) {key : Bytes} (hi : s.pageFor key < i) {r : Record}
    (hr : r ∈ s.contentsAt i) : s.order.compare r.key key = .gt := by
  rw [contentsAt] at hr
  cases hp : s.pages[i]? with
  | none =>
    rw [hp] at hr
    cases hr
  | some p =>
    rw [hp] at hr
    obtain ⟨front, q, back, hpages, hlen, -, hhigh⟩ :=
      exists_cover hs (List.ne_nil_of_mem (List.mem_of_getElem? hp)) key
    obtain ⟨n, rfl⟩ := Nat.exists_eq_add_of_lt hi
    rw [hpages, ← hlen, List.getElem?_append_right (by omega)] at hp
    have hn : front.length + n + 1 - front.length = n + 1 := by omega
    rw [hn, List.getElem?_cons_succ] at hp
    exact hhigh r (List.mem_flatMap.2 ⟨p, List.mem_of_getElem? hp, hr⟩)

private theorem sameLook_map {pages : List Nat} {f g : List Record → Option Record}
    (h : ∀ i ∈ pages, f (s.contentsAt i) = g (s.contentsAt i)) :
    List.Forall₂ s.SameLook (pages.map fun i => ⟨i, f⟩) (pages.map fun i => ⟨i, g⟩) := by
  rw [List.forall₂_map_left_iff, List.forall₂_map_right_iff, List.forall₂_same]
  exact fun i hi => ⟨rfl, h i hi⟩

section Ends

variable {p : Record → Bool} {l : List Record}

theorem next?_of_none (h : ∀ r ∈ l, p r = false) : Front.next? p l = l.head? := by
  have hleads : Front.Leads p l := by
    refine List.Pairwise.imp_of_mem ?_ (List.pairwise_of_forall fun _ _ => trivial)
    intro a b _ hb _ hp
    exact absurd (h b hb) (by simp [hp])
  rw [Front.next?_eq p l hleads]
  cases l with
  | nil => rfl
  | cons x l => simp [h x List.mem_cons_self]

theorem last?_of_all (h : ∀ r ∈ l, p r = true) : Front.last? p l = l.getLast? := by
  have hleads : Front.Leads p l := by
    refine List.Pairwise.imp_of_mem ?_ (List.pairwise_of_forall fun _ _ => trivial)
    intro a b ha _ _ _
    exact h a ha
  rw [Front.last?_eq p l hleads, ← List.head?_reverse]
  cases hl : l.reverse with
  | nil => rfl
  | cons x m =>
    have hx : p x = true := h x (List.mem_reverse.1 (hl ▸ List.mem_cons_self))
    simp [hx]

end Ends

section Sides

variable {m : Seek} {key : Bytes}

private theorem route_above (hm : m = .atOrAfter key ∨ m = .after key) :
    s.route m = ⟨s.pageFor key, Front.next? fun r => !m.accepts s.order r⟩ ::
      (List.range' (s.pageFor key + 1) (s.pages.length - (s.pageFor key + 1))).map
        fun i => ⟨i, List.head?⟩ := by
  rcases hm with rfl | rfl <;> rfl

private theorem route_below (hm : m = .atOrBefore key ∨ m = .before key) :
    s.route m = ⟨s.pageFor key, Front.last? fun r => m.accepts s.order r⟩ ::
      (List.range (s.pageFor key)).reverse.map fun i => ⟨i, List.getLast?⟩ := by
  rcases hm with rfl | rfl <;> rfl

theorem locate_above_eq (hs : s.Valid) (hm : m = .atOrAfter key ∨ m = .after key) :
    (locate m).run s = (loadLook (s.route m)).run s := by
  have hlocate : (locate m).run s = (firstFrom (fun r => !m.accepts s.order r)
      (s.pages.length - s.pageFor key) (s.pageFor key)).run s := by
    rcases hm with rfl | rfl <;> rfl
  have hbeyond : ∀ i ∈ List.range' (s.pageFor key + 1) (s.pages.length - (s.pageFor key + 1)),
      Front.next? (fun r => !m.accepts s.order r) (s.contentsAt i) = (s.contentsAt i).head? := by
    intro i hi
    refine next?_of_none fun r hr => ?_
    have hgt := gt_of_mem_contentsAt hs (List.mem_range'_1.1 hi).1 hr
    rcases hm with rfl | rfl <;> simp [Seek.accepts, hgt]
  rw [hlocate, firstFrom_eq, route_above hm]
  by_cases hne : s.pages = []
  · simp [loadLook, load, hne, Front.next?]
  · have hlt := pageFor_lt hne key
    have hcount : s.pages.length - s.pageFor key =
        s.pages.length - (s.pageFor key + 1) + 1 := by omega
    rw [hcount, List.range'_succ, List.map_cons]
    exact loadLook_congr hs (.cons ⟨rfl, rfl⟩ (sameLook_map hbeyond))

theorem locate_below_eq (hs : s.Valid) (hm : m = .atOrBefore key ∨ m = .before key) :
    (locate m).run s = (loadLook (s.route m)).run s := by
  have hlocate : (locate m).run s =
      (lastAmong (fun r => m.accepts s.order r) (s.pageFor key + 1)).run s := by
    rcases hm with rfl | rfl <;> rfl
  have hbefore : ∀ i ∈ (List.range (s.pageFor key)).reverse,
      Front.last? (fun r => m.accepts s.order r) (s.contentsAt i) = (s.contentsAt i).getLast? := by
    intro i hi
    refine last?_of_all fun r hr => ?_
    have hlt := lt_of_mem_contentsAt hs (List.mem_range.1 (List.mem_reverse.1 hi)) hr
    rcases hm with rfl | rfl <;> simp [Seek.accepts, hlt]
  rw [hlocate, lastAmong_eq, route_below hm, List.range_succ, List.reverse_concat, List.map_cons]
  exact loadLook_congr hs (.cons ⟨rfl, rfl⟩ (sameLook_map hbefore))

end Sides

theorem locate_eq_loadLook (hs : s.Valid) (m : Seek) :
    (locate m).run s = (loadLook (s.route m)).run s := by
  cases m with
  | first =>
    simp only [locate, EStateM.run_bind, EStateM.run_get, firstFrom_eq, route]
    exact loadLook_congr hs (sameLook_map fun i _ => next?_of_none (by simp [Seek.accepts]))
  | last =>
    simp only [locate, EStateM.run_bind, EStateM.run_get, lastAmong_eq, route]
    exact loadLook_congr hs (sameLook_map fun i _ => last?_of_all (by simp [Seek.accepts]))
  | exact key =>
    obtain ⟨t, hload, -⟩ := load_run hs (s.pageFor key)
    simp only [locate, route, loadLook, EStateM.run_bind, EStateM.run_get, hload]
    cases (Front.next? (fun r : Record => (s.order.compare r.key key).isLT)
      ((s.pages[s.pageFor key]?.map (Page.contents s.codec)).getD [])).filter
        fun r => (Seek.exact key).accepts s.order r <;> rfl
  | atOrAfter key => exact locate_above_eq hs (Or.inl rfl)
  | after key => exact locate_above_eq hs (Or.inr rfl)
  | atOrBefore key => exact locate_below_eq hs (Or.inl rfl)
  | before key => exact locate_below_eq hs (Or.inr rfl)

private theorem Alike.route_eq (h : s.Alike t) (hs : s.Valid) (ht : t.Valid) (m : Seek) :
    t.route m = s.route m := by
  cases m <;> simp only [route, h.order, h.length_pages, h.pageFor_eq hs ht]

theorem length_trail_le_one {l : List Look}
    (h : ∀ x ∈ l, (x.pick (s.contentsAt x.page)).isSome = true) : (s.trail l).length ≤ 1 := by
  cases l with
  | nil => exact Nat.zero_le 1
  | cons x rest =>
    rw [trail, if_pos (h x List.mem_cons_self)]
    exact Nat.le_refl 1

theorem length_trail_route_le (hs : s.Valid) (m : Seek) :
    (s.trail (s.route m)).length ≤ m.reloadLimit := by
  have hends : ∀ {pages : List Nat}, (∀ i ∈ pages, i < s.pages.length) →
      (s.trail (pages.map fun i => ⟨i, List.head?⟩)).length ≤ 1 ∧
        (s.trail (pages.map fun i => ⟨i, List.getLast?⟩)).length ≤ 1 := by
    intro pages hpages
    constructor
    all_goals
      refine length_trail_le_one fun x hx => ?_
      obtain ⟨i, hi, rfl⟩ := List.mem_map.1 hx
      have hne := contentsAt_ne_nil hs (hpages i hi)
      simpa using hne
  have hcons : ∀ (x : Look) {rest : List Look}, (s.trail rest).length ≤ 1 →
      (s.trail (x :: rest)).length ≤ 2 := by
    intro x rest h
    rw [trail, List.length_cons]
    split
    · exact Nat.le_succ 1
    · exact Nat.succ_le_succ h
  have habove (key : Bytes) : ∀ i ∈ List.range' (s.pageFor key + 1)
      (s.pages.length - (s.pageFor key + 1)), i < s.pages.length := by
    intro i hi
    have := List.mem_range'_1.1 hi
    omega
  have hbelow (key : Bytes) : ∀ i ∈ (List.range (s.pageFor key)).reverse, i < s.pages.length := by
    intro i hi
    have hlt := List.mem_range.1 (List.mem_reverse.1 hi)
    by_cases hne : s.pages = []
    · simp [pageFor, hne, Front.length, Front.lengthWithin] at hlt
    · exact Nat.lt_trans hlt (pageFor_lt hne key)
  cases m with
  | first => exact (hends fun i hi => by simpa using hi).1
  | last => exact (hends fun i hi => by simpa using hi).2
  | exact key => simp [route, trail, Seek.reloadLimit]
  | atOrAfter key => exact hcons _ (hends (habove key)).1
  | after key => exact hcons _ (hends (habove key)).1
  | atOrBefore key => exact hcons _ (hends (hbelow key)).2
  | before key => exact hcons _ (hends (hbelow key)).2

/-- A seek that takes these loads. Each is of a page that is away, there are no more than the mode allows,
and they are what the reloads grow by; the lookup that gets through finds what the seek returns. -/
structure SeekEnds (s : Store) (m : Seek) (loads : List Nat) (found : Option Record) (t : Store) :
    Prop where
  retries : Retries (lookup m) s loads found t
  run : (seek m).run s =
    .ok found { t with stats.visited := t.stats.visited + found.toList.length }
  away : ∀ i ∈ loads, ∃ p, s.pages[i]? = some p ∧ p.isResident = false
  few : loads.length ≤ m.reloadLimit
  reloads : t.stats.reloads = s.stats.reloads + loads.length

theorem exists_seekEnds (hs : s.Valid) (m : Seek) : ∃ loads found t, s.SeekEnds m loads found t := by
  obtain ⟨loads, r, t, hretries, hrun, -, -, hsub, haway, hreloads⟩ :=
    exists_retries hs (s.route m)
  have hlookup : Retries (lookup m) s loads r t := by
    refine hretries.congr hs fun u hsu hu => ?_
    rw [lookup, hsu.route_eq hs hu]
  have hseek : (seek m).run s =
      .ok r { t with stats.visited := t.stats.visited + r.toList.length } := by
    rw [← locate_eq_loadLook hs] at hrun
    simp only [seek, EStateM.run_bind, hrun]
    cases r <;> rfl
  refine ⟨loads, r, t, hlookup, hseek, fun i hi => ?_,
    Nat.le_trans hsub.length_le (length_trail_route_le hs m), hreloads⟩
  obtain ⟨p, hp, hpage, -⟩ := load_of_away hs (haway i hi)
  exact ⟨p, hp, hpage⟩

end Store

end Keyspan
