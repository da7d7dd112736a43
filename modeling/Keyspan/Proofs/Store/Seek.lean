import Keyspan.Proofs.Store.Valid

set_option autoImplicit false
set_option relaxedAutoImplicit false

namespace Keyspan

open Std Flat

theorem Flat.Ascending.next?_exact {order : KeyOrder} {l : List Record} (h : Ascending order l)
    (key : Bytes) :
    (Front.next? (fun r : Record => (order.compare r.key key).isLT) l).filter
        (fun r => (Seek.exact key).accepts order r) =
      l.find? fun r => order.compare r.key key = .eq := by
  rw [Front.next?_eq _ _ (h.leads_below key)]
  induction l with
  | nil => rfl
  | cons x l ih =>
    obtain ⟨hx, hl⟩ := List.pairwise_cons.1 h
    cases hk : order.compare x.key key with
    | lt => simpa [hk] using ih hl
    | eq => simp [Seek.accepts, hk]
    | gt =>
      have hnone : l.find? (fun r => order.compare r.key key = .eq) = none := by
        rw [List.find?_eq_none]
        intro r hr
        have hgt : order.compare r.key key = .gt :=
          OrientedCmp.gt_of_lt (TransCmp.lt_trans (OrientedCmp.lt_of_gt hk) (hx r hr))
        simp [hgt]
      simp [Seek.accepts, hk, hnone]

section Sides

variable {order : KeyOrder} {m : Seek} {key : Bytes}

theorem Flat.pick_above (hm : m = .atOrAfter key ∨ m = .after key) (l : List Record) :
    pick order l m = l.find? fun r => m.accepts order r := by
  rcases hm with rfl | rfl
  all_goals
    rw [pick]
    congr 1
    funext r
    cases hk : order.compare r.key key <;> simp [Seek.accepts, hk]

theorem Flat.pick_below (hm : m = .atOrBefore key ∨ m = .before key) (l : List Record) :
    pick order l m = l.reverse.find? fun r => m.accepts order r := by
  rcases hm with rfl | rfl
  all_goals
    rw [pick]
    congr 1
    funext r
    cases hk : order.compare r.key key <;> simp [Seek.accepts, hk]

theorem Seek.accepts_of_lt (hm : m = .atOrAfter key ∨ m = .after key) {a b : Record}
    (hab : order.compare a.key b.key = .lt) (ha : m.accepts order a = true) :
    m.accepts order b = true := by
  have hba := OrientedCmp.gt_of_lt hab
  rcases hm with rfl | rfl
  · have hgt : order.compare b.key key = .gt := TransCmp.gt_of_gt_of_isGE hba ha
    simp [Seek.accepts, hgt]
  · have hak : order.compare a.key key = .gt := by simpa [Seek.accepts] using ha
    simp [Seek.accepts, TransCmp.gt_trans hba hak]

theorem Seek.accepts_of_gt (hm : m = .atOrBefore key ∨ m = .before key) {a b : Record}
    (hab : order.compare a.key b.key = .lt) (hb : m.accepts order b = true) :
    m.accepts order a = true := by
  rcases hm with rfl | rfl
  · simp [Seek.accepts, TransCmp.lt_of_lt_of_isLE hab hb]
  · have hbk : order.compare b.key key = .lt := by simpa [Seek.accepts] using hb
    simp [Seek.accepts, TransCmp.lt_trans hab hbk]

private theorem Seek.accepts_above_eq_false (hm : m = .atOrAfter key ∨ m = .after key) {r : Record}
    (hr : order.compare r.key key = .lt) : m.accepts order r = false := by
  rcases hm with rfl | rfl <;> simp [Seek.accepts, hr]

private theorem Seek.accepts_below_eq_false (hm : m = .atOrBefore key ∨ m = .before key) {r : Record}
    (hr : order.compare r.key key = .gt) : m.accepts order r = false := by
  rcases hm with rfl | rfl <;> simp [Seek.accepts, hr]

end Sides

namespace Store

private theorem firstFrom_run (isFront : Record → Bool) (count i : Nat) {s : Store} (hs : s.Valid)
    (hp : ∀ a b, s.order.compare a.key b.key = .lt → isFront b = true → isFront a = true) :
    ∃ t, (firstFrom isFront count i).run s =
        .ok ((((s.pages.drop i).take count).flatMap (Page.contents s.codec)).find?
          fun r => !isFront r) t ∧
      s.Alike t ∧ t.Valid := by
  induction count generalizing i s with
  | zero => exact ⟨s, rfl, .refl s, hs⟩
  | succ count ih =>
    obtain ⟨t, hload, hst, ht⟩ := load_run hs i
    simp only [firstFrom, EStateM.run_bind, hload]
    have hleads : Front.Leads isFront ((s.pages[i]?.map (Page.contents s.codec)).getD []) := by
      cases hi : s.pages[i]? with
      | none => exact List.Pairwise.nil
      | some p => exact (hs.page_ascending (List.mem_of_getElem? hi)).leads hp
    -- the pages from `i` on, before and after the load
    have hrest : ((t.pages.drop (i + 1)).take count).flatMap (Page.contents t.codec) =
        ((s.pages.drop (i + 1)).take count).flatMap (Page.contents s.codec) := by
      simp only [List.flatMap_def, List.map_take, List.map_drop, hst.map_contents]
    have hhere : ((s.pages.drop i).take (count + 1)).flatMap (Page.contents s.codec) =
        (s.pages[i]?.map (Page.contents s.codec)).getD [] ++
          ((s.pages.drop (i + 1)).take count).flatMap (Page.contents s.codec) := by
      cases hi : s.pages[i]? with
      | none =>
        have hlen : s.pages.length ≤ i := List.getElem?_eq_none_iff.1 hi
        simp [List.drop_eq_nil_of_le hlen, List.drop_eq_nil_of_le (Nat.le_succ_of_le hlen)]
      | some p =>
        obtain ⟨hlen, rfl⟩ := List.getElem?_eq_some_iff.1 hi
        rw [List.drop_eq_getElem_cons hlen, List.take_succ_cons, List.flatMap_cons]
        rfl
    rw [hhere, List.find?_append, ← Front.next?_eq isFront _ hleads]
    cases Front.next? isFront ((s.pages[i]?.map (Page.contents s.codec)).getD []) with
    | some r => exact ⟨t, rfl, hst, ht⟩
    | none =>
      obtain ⟨u, hrun, htu, hu⟩ := ih (i + 1) ht (by rwa [hst.order])
      rw [hrest] at hrun
      exact ⟨u, hrun, hst.trans htu, hu⟩

private theorem lastAmong_run (isFront : Record → Bool) (count : Nat) {s : Store} (hs : s.Valid)
    (hp : ∀ a b, s.order.compare a.key b.key = .lt → isFront b = true → isFront a = true) :
    ∃ t, (lastAmong isFront count).run s =
        .ok (((s.pages.take count).flatMap (Page.contents s.codec)).reverse.find? isFront) t ∧
      s.Alike t ∧ t.Valid := by
  induction count generalizing s with
  | zero => exact ⟨s, rfl, .refl s, hs⟩
  | succ count ih =>
    obtain ⟨t, hload, hst, ht⟩ := load_run hs count
    simp only [lastAmong, EStateM.run_bind, hload]
    have hleads : Front.Leads isFront ((s.pages[count]?.map (Page.contents s.codec)).getD []) := by
      cases hi : s.pages[count]? with
      | none => exact List.Pairwise.nil
      | some p => exact (hs.page_ascending (List.mem_of_getElem? hi)).leads hp
    have hrest : (t.pages.take count).flatMap (Page.contents t.codec) =
        (s.pages.take count).flatMap (Page.contents s.codec) := by
      simp only [List.flatMap_def, List.map_take, hst.map_contents]
    have hhere : (s.pages.take (count + 1)).flatMap (Page.contents s.codec) =
        (s.pages.take count).flatMap (Page.contents s.codec) ++
          (s.pages[count]?.map (Page.contents s.codec)).getD [] := by
      rw [List.take_add_one, List.flatMap_append]
      cases s.pages[count]? <;> simp
    rw [hhere, List.reverse_append, List.find?_append, ← Front.last?_eq isFront _ hleads]
    cases Front.last? isFront ((s.pages[count]?.map (Page.contents s.codec)).getD []) with
    | some r => exact ⟨t, rfl, hst, ht⟩
    | none =>
      obtain ⟨u, hrun, htu, hu⟩ := ih ht (by rwa [hst.order])
      rw [hrest] at hrun
      exact ⟨u, hrun, hst.trans htu, hu⟩

theorem firstFrom_pageFor_run {s : Store} (hs : s.Valid) (key : Bytes) (passes : Record → Bool)
    (hup : ∀ a b, s.order.compare a.key b.key = .lt → passes a = true → passes b = true)
    (hlow : ∀ r, s.order.compare r.key key = .lt → passes r = false) :
    ∃ t, (firstFrom (fun r => !passes r) (s.pages.length - s.pageFor key) (s.pageFor key)).run s =
        .ok (s.records.find? passes) t ∧ s.Alike t ∧ t.Valid := by
  have hdown : ∀ a b : Record, s.order.compare a.key b.key = .lt → (!passes b) = true →
      (!passes a) = true := by
    intro a b hab hb
    cases ha : passes a with
    | false => rfl
    | true => simp [hup a b hab ha] at hb
  obtain ⟨t, hrun, h⟩ :=
    firstFrom_run _ (s.pages.length - s.pageFor key) (s.pageFor key) hs hdown
  refine ⟨t, ?_, h⟩
  rw [hrun, ← List.length_drop, List.take_length]
  simp only [Bool.not_not]
  by_cases hne : s.pages = []
  · simp [records, hne]
  · obtain ⟨front, q, back, hpages, hlen, hfront, -⟩ := exists_cover hs hne key
    have hnone : (front.flatMap (Page.contents s.codec)).find? passes = none := by
      rw [List.find?_eq_none]
      intro r hr
      simp [hlow r (hfront r hr)]
    rw [records, ← hlen, hpages, List.drop_left, List.flatMap_append, List.find?_append, hnone,
      Option.none_or]

theorem lastAmong_pageFor_run {s : Store} (hs : s.Valid) (key : Bytes) (passes : Record → Bool)
    (hdown : ∀ a b, s.order.compare a.key b.key = .lt → passes b = true → passes a = true)
    (hhigh : ∀ r, s.order.compare r.key key = .gt → passes r = false) :
    ∃ t, (lastAmong passes (s.pageFor key + 1)).run s =
        .ok (s.records.reverse.find? passes) t ∧ s.Alike t ∧ t.Valid := by
  obtain ⟨t, hrun, h⟩ := lastAmong_run passes (s.pageFor key + 1) hs hdown
  refine ⟨t, ?_, h⟩
  rw [hrun]
  by_cases hne : s.pages = []
  · simp [records, hne]
  · obtain ⟨front, q, back, hpages, hlen, -, hback⟩ := exists_cover hs hne key
    have hnone : (back.flatMap (Page.contents s.codec)).reverse.find? passes = none := by
      rw [List.find?_eq_none]
      intro r hr
      simp [hhigh r (hback r (List.mem_reverse.1 hr))]
    have htake : s.pages.take (s.pageFor key + 1) = front ++ [q] := by
      rw [hpages, ← hlen, List.take_append, List.take_of_length_le (Nat.le_succ _),
        Nat.add_sub_cancel_left]
      rfl
    have hrecords : s.records = (front ++ [q]).flatMap (Page.contents s.codec) ++
        back.flatMap (Page.contents s.codec) := by
      rw [records, hpages, ← List.flatMap_append, List.append_assoc]
      rfl
    rw [htake, hrecords, List.reverse_append, List.find?_append, hnone, Option.none_or]

theorem locate_exact_run {s : Store} (hs : s.Valid) (key : Bytes) :
    ∃ t, (locate (.exact key)).run s = .ok (pick s.order s.records (.exact key)) t ∧ s.Alike t ∧
      t.Valid := by
  obtain ⟨t, hload, hst, ht⟩ := load_run hs (s.pageFor key)
  refine ⟨t, ?_, hst, ht⟩
  simp only [locate, EStateM.run_bind, EStateM.run_get, hload, EStateM.run_pure]
  congr 1
  by_cases hne : s.pages = []
  · simp [records, hne, pick, Front.next?]
  · obtain ⟨front, q, back, hpages, hlen, hlow, hhigh⟩ := exists_cover hs hne key
    have hq : q ∈ s.pages := by
      rw [hpages]
      exact List.mem_append_right front List.mem_cons_self
    have hget : s.pages[s.pageFor key]? = some q := by
      rw [hpages, ← hlen]
      simp
    have hfront : (front.flatMap (Page.contents s.codec)).find?
        (fun r => s.order.compare r.key key = .eq) = none := by
      rw [List.find?_eq_none]
      intro r hr
      simp [hlow r hr]
    have hback : (back.flatMap (Page.contents s.codec)).find?
        (fun r => s.order.compare r.key key = .eq) = none := by
      rw [List.find?_eq_none]
      intro r hr
      simp [hhigh r hr]
    rw [hget, Option.map_some, Option.getD_some]
    refine ((hs.page_ascending hq).next?_exact key).trans ?_
    rw [pick, records, hpages, List.flatMap_append, List.flatMap_cons, List.find?_append,
      List.find?_append, hfront, hback, Option.none_or, Option.or_none]

theorem locate_above_run {s : Store} (hs : s.Valid) {m : Seek} {key : Bytes}
    (hm : m = .atOrAfter key ∨ m = .after key) :
    ∃ t, (locate m).run s = .ok (pick s.order s.records m) t ∧ s.Alike t ∧ t.Valid := by
  obtain ⟨t, hrun, h⟩ := firstFrom_pageFor_run hs key (fun r => m.accepts s.order r)
    (fun a b => Seek.accepts_of_lt hm) (fun r => Seek.accepts_above_eq_false hm)
  refine ⟨t, ?_, h⟩
  rw [pick_above hm, ← hrun]
  rcases hm with rfl | rfl <;> rfl

theorem locate_below_run {s : Store} (hs : s.Valid) {m : Seek} {key : Bytes}
    (hm : m = .atOrBefore key ∨ m = .before key) :
    ∃ t, (locate m).run s = .ok (pick s.order s.records m) t ∧ s.Alike t ∧ t.Valid := by
  obtain ⟨t, hrun, h⟩ := lastAmong_pageFor_run hs key (fun r => m.accepts s.order r)
    (fun a b => Seek.accepts_of_gt hm) (fun r => Seek.accepts_below_eq_false hm)
  refine ⟨t, ?_, h⟩
  rw [pick_below hm, ← hrun]
  rcases hm with rfl | rfl <;> rfl

theorem locate_run {s : Store} (hs : s.Valid) (m : Seek) :
    ∃ t, (locate m).run s = .ok (pick s.order s.records m) t ∧ s.Alike t ∧ t.Valid := by
  cases m with
  | first =>
    obtain ⟨t, hrun, h⟩ := firstFrom_run (fun r => !Seek.first.accepts s.order r)
      s.pages.length 0 hs (by simp [Seek.accepts])
    refine ⟨t, ?_, h⟩
    simp only [locate, EStateM.run_bind, EStateM.run_get]
    rw [hrun, List.drop_zero, List.take_length, pick, ← records]
    cases s.records <;> simp [Seek.accepts]
  | last =>
    obtain ⟨t, hrun, h⟩ := lastAmong_run (fun r => Seek.last.accepts s.order r)
      s.pages.length hs (by simp [Seek.accepts])
    refine ⟨t, ?_, h⟩
    simp only [locate, EStateM.run_bind, EStateM.run_get]
    rw [hrun, List.take_length, pick, ← records, ← List.head?_reverse]
    cases s.records.reverse <;> simp [Seek.accepts]
  | exact key => exact locate_exact_run hs key
  | atOrAfter key => exact locate_above_run hs (Or.inl rfl)
  | after key => exact locate_above_run hs (Or.inr rfl)
  | atOrBefore key => exact locate_below_run hs (Or.inl rfl)
  | before key => exact locate_below_run hs (Or.inr rfl)

/-- A seek gives what the flat list gives. Pages may come back, nothing else changes. -/
theorem seek_run {s : Store} (hs : s.Valid) (m : Seek) :
    ∃ t, (seek m).run s = .ok (pick s.order s.records m) t ∧ s.Alike t ∧ t.Valid := by
  obtain ⟨t, hrun, hst, ht⟩ := locate_run hs m
  simp only [seek, EStateM.run_bind, hrun]
  cases pick s.order s.records m with
  | none => exact ⟨t, rfl, hst, ht⟩
  | some r =>
    refine ⟨{ t with stats.visited := t.stats.visited + 1 }, rfl, ?_, ?_⟩
    · exact ⟨hst.order, hst.paging, hst.pages⟩
    · exact ⟨ht.sound, ht.first, ht.bounded, ht.ascending⟩

end Store

end Keyspan
