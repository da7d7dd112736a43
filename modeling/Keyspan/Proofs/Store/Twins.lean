import Keyspan.Proofs.Outcome
import Keyspan.Proofs.Store.Refinement

set_option autoImplicit false
set_option relaxedAutoImplicit false

namespace Keyspan

namespace Store

def visited (s : Store) : Nat :=
  s.stats.visited

section Visited

private theorem keeps_load (i : Nat) : Keeps visited (load i) := by
  intro s
  simp only [load, EStateM.run_bind, EStateM.run_get]
  cases s.pages[i]? with
  | none => rfl
  | some page =>
    dsimp only
    cases page.reload? s.codec s.paging.verify with
    | error fault => rfl
    | ok loaded => cases loaded <;> rfl

private theorem keeps_locate (m : Seek) : Keeps visited (locate m) :=
  (Keeps.compositional visited).locate keeps_load m

private theorem keeps_append (key : Bytes) (v : Version) : Keeps visited (append key v) := by
  refine Keeps.get.bind fun s => ?_
  split
  · exact fun _ => rfl
  · exact (keeps_load _).bind fun _ _ => rfl

theorem keeps_evictPage (i : Nat) : Keeps visited (evictPage i) := by
  intro s
  simp only [evictPage, EStateM.run_bind, EStateM.run_get]
  cases s.pages[i]? with
  | none => rfl
  | some page =>
    dsimp only
    cases page.evict? s.codec s.paging.compression with
    | error fault => rfl
    | ok evicted => cases evicted <;> rfl

theorem seek_counted {s : Store} (hs : s.Valid) (m : Seek) :
    ∃ t, (seek m).run s = .ok (Flat.pick s.order s.records m) t ∧ s.Alike t ∧ t.Valid ∧
      t.visited = s.visited + (Flat.pick s.order s.records m).toList.length := by
  obtain ⟨t, hrun, hst, ht⟩ := seek_run hs m
  refine ⟨t, hrun, hst, ht, ?_⟩
  obtain ⟨u, hlocate, -, -⟩ := locate_run hs m
  have hu := keeps_locate m s
  rw [hlocate] at hu
  simp only [seek, EStateM.run_bind, hlocate] at hrun
  cases hpick : Flat.pick s.order s.records m with
  | none =>
    rw [hpick] at hrun
    cases hrun
    exact hu
  | some r =>
    rw [hpick] at hrun
    cases hrun
    exact congrArg (· + 1) hu

end Visited

structure Twins (s t : Store) : Prop where
  left : s.Valid
  right : t.Valid
  order : t.order = s.order
  records : t.records = s.records
  visited : t.visited = s.visited

theorem twins_empty (order : KeyOrder) (paging paging' : Paging) :
    (empty order paging).Twins (empty order paging') where
  left := valid_empty order paging
  right := valid_empty order paging'
  order := rfl
  records := rfl
  visited := rfl

namespace Twins

variable {s t u v : Store}

theorem symm (h : s.Twins t) : t.Twins s :=
  ⟨h.right, h.left, h.order.symm, h.records.symm, h.visited.symm⟩

theorem move (h : s.Twins t) (hsu : s.Alike u) (hu : u.Valid) (hvisited : u.visited = s.visited) :
    u.Twins t :=
  ⟨hu, h.right, h.order.trans hsu.order.symm, h.records.trans hsu.records_eq.symm,
    h.visited.trans hvisited.symm⟩

/-- Both hand out the same record. -/
theorem seek (h : s.Twins t) (m : Seek) :
    ∃ u v, (Store.seek m).run s = .ok (Flat.pick s.order s.records m) u ∧
      (Store.seek m).run t = .ok (Flat.pick s.order s.records m) v ∧ u.Twins v ∧
      s.Alike u ∧ t.Alike v := by
  obtain ⟨u, hu, hsu, huv, hucount⟩ := seek_counted h.left m
  obtain ⟨v, hv, htv, hvv, hvcount⟩ := seek_counted h.right m
  have hpick : Flat.pick t.order t.records m = Flat.pick s.order s.records m := by
    rw [h.order, h.records]
  rw [hpick] at hv hvcount
  refine ⟨u, v, hu, hv, ⟨huv, hvv, ?_, ?_, ?_⟩, hsu, htv⟩
  · rw [htv.order, hsu.order, h.order]
  · rw [htv.records_eq, hsu.records_eq, h.records]
  · rw [hvcount, hucount, h.visited]

theorem append (h : s.Twins t) (key : Bytes) (v : Version) :
    Matching Twins ((Store.append key v).run s) ((Store.append key v).run t) := by
  obtain ⟨u, hu, horder, -, hrecords, hvalid⟩ := append_run h.left key v
  obtain ⟨w, hw, horder', -, hrecords', hvalid'⟩ := append_run h.right key v
  have hvisited := keeps_append key v s
  have hvisited' := keeps_append key v t
  rw [hu] at hvisited ⊢
  rw [hw] at hvisited' ⊢
  refine .ok ⟨hvalid, hvalid', ?_, ?_, ?_⟩
  · rw [horder', horder, h.order]
  · rw [hrecords', hrecords, h.order, h.records]
  · exact hvisited'.trans (h.visited.trans hvisited.symm)

theorem run_left (h : s.Twins t) (hm : s.InMemory) {call : StoreCall}
    (happend : call.appended? = none) (hseek : ∀ m, call ≠ .seek m) : (call.run s).2.Twins t := by
  obtain ⟨halike, hvalid, -⟩ := run_alike h.left hm happend
  refine h.move halike hvalid (StoreCall.keeps_run keeps_evictPage ?_ hseek s)
  rintro key v rfl
  cases happend

end Twins

end Store

end Keyspan
