import Keyspan.Proofs.Compression.Literal
import Keyspan.Proofs.Store.Append
import Keyspan.Proofs.Store.Eviction
import Keyspan.Proofs.Store.Seek
import Keyspan.Session.StoreCall

/-!
A store refines a flat list.

Calls other than appends leave all records as they are, appends do to them what they do to the flat
list, and every seek answers from that list. By induction over a run, no run of calls tells a store
from the list that its appends build.
-/

set_option autoImplicit false
set_option relaxedAutoImplicit false

namespace Keyspan

def StoreCall.appended? : StoreCall → Option (Bytes × Version)
  | append key v => some (key, v)
  | _ => none

theorem StoreCall.eq_append {call : StoreCall} {key : Bytes} {v : Version}
    (h : call.appended? = some (key, v)) : call = .append key v := by
  cases call <;> cases h
  rfl

namespace Store

def after (s : Store) (calls : List StoreCall) : Store :=
  calls.foldl (fun s call => (call.run s).2) s

private theorem answer_harmless {α : Type} {call : StoreM α} (h : Harmless call) {s : Store}
    (hs : s.Valid) (hm : s.InMemory) (reply : α → Reply) (hreply : ∀ x e, reply x ≠ .failed e) :
    s.Alike (StoreCall.answer reply call s).2 ∧ (StoreCall.answer reply call s).2.Valid ∧
      (s.Fits → ∀ e, (StoreCall.answer reply call s).1 ≠ .failed e) := by
  obtain ⟨t, hst, ht, ⟨x, hrun⟩ | ⟨⟨e, hrun⟩, hfit⟩⟩ := h s hs hm
  · simp only [StoreCall.answer, hrun]
    exact ⟨hst, ht, fun _ e => hreply x e⟩
  · simp only [StoreCall.answer, hrun]
    exact ⟨hst, ht, fun hf => absurd hf hfit⟩

theorem run_seek {s : Store} (hs : s.Valid) (m : Seek) :
    (StoreCall.run s (.seek m)).1 = .record (Flat.pick s.order s.records m) ∧
      s.Alike (StoreCall.run s (.seek m)).2 ∧ (StoreCall.run s (.seek m)).2.Valid := by
  obtain ⟨t, hrun, hst, ht⟩ := seek_run hs m
  have hanswer : StoreCall.run s (.seek m) = (.record (Flat.pick s.order s.records m), t) := by
    simp only [StoreCall.run, StoreCall.answer, hrun]
  rw [hanswer]
  exact ⟨rfl, hst, ht⟩

/-- What is not an append leaves all records as they are, even where it fails; and it fails only
where some payload does not fit. -/
theorem run_alike {s : Store} (hs : s.Valid) (hm : s.InMemory) {call : StoreCall}
    (hcall : call.appended? = none) :
    s.Alike (call.run s).2 ∧ (call.run s).2.Valid ∧ (s.Fits → ∀ e, (call.run s).1 ≠ .failed e) := by
  cases call with
  | append key v => cases hcall
  | seek m =>
    obtain ⟨hreply, hst, ht⟩ := run_seek hs m
    refine ⟨hst, ht, fun _ e => ?_⟩
    rw [hreply]
    exact nofun
  | evictPage i => exact answer_harmless (harmless_evictPage i) hs hm _ nofun
  | evictAll =>
    exact answer_harmless (Harmless.compositional.evictAll harmless_evictPage) hs hm _ nofun
  | evictPicked count picks =>
    exact answer_harmless (Harmless.compositional.evictPicked harmless_evictPage count picks)
      hs hm _ nofun
  | evictContaining key =>
    exact answer_harmless (Harmless.compositional.evictContaining harmless_evictPage key)
      hs hm _ nofun
  | release key => exact answer_harmless (harmless_release key) hs hm _ nofun
  | serve requests =>
    obtain ⟨hst, ht⟩ := serve_alike hs hm requests
    exact ⟨hst, ht, fun _ => nofun⟩
  | pages => exact ⟨.refl s, hs, fun _ => nofun⟩

/-- A valid store that stands for the flat list of some appends. -/
structure Refines (s : Store) (order : KeyOrder) (appends : List (Bytes × Version)) : Prop where
  valid : s.Valid
  ordered : s.order = order
  records : s.records = Flat.ofAppends order appends

theorem refines_empty (order : KeyOrder) (paging : Paging) :
    (empty order paging).Refines order [] :=
  ⟨valid_empty order paging, rfl, rfl⟩

/-- An append keeps store and list together and does not fail. -/
theorem Refines.append {s : Store} {order : KeyOrder} {appends : List (Bytes × Version)}
    (h : s.Refines order appends) (key : Bytes) (v : Version) :
    ∃ t, (Store.append key v).run s = .ok () t ∧ t.paging = s.paging ∧
      t.Refines order (appends ++ [(key, v)]) := by
  obtain ⟨t, hrun, horder, hpaging, hrecords, ht⟩ := append_run h.valid key v
  refine ⟨t, hrun, hpaging, ht, horder.trans h.ordered, ?_⟩
  rw [hrecords, h.ordered, h.records, Flat.ofAppends, Flat.ofAppends, List.foldl_append]
  rfl

theorem Refines.alike {s t : Store} {order : KeyOrder} {appends : List (Bytes × Version)}
    (h : s.Refines order appends) (hst : s.Alike t) (ht : t.Valid) : t.Refines order appends :=
  ⟨ht, hst.order.trans h.ordered, hst.records_eq.trans h.records⟩

/-- One call keeps store and list together, even where it fails. -/
theorem Refines.call {s : Store} {order : KeyOrder} {appends : List (Bytes × Version)}
    (h : s.Refines order appends) (hm : s.InMemory) (call : StoreCall) :
    (call.run s).2.Refines order (appends ++ call.appended?.toList) := by
  cases hcall : call.appended? with
  | none =>
    obtain ⟨hst, ht, -⟩ := run_alike h.valid hm hcall
    rw [Option.toList_none, List.append_nil]
    exact h.alike hst ht
  | some a =>
    obtain ⟨key, v⟩ := a
    obtain rfl := StoreCall.eq_append hcall
    obtain ⟨t, hrun, -, ht⟩ := h.append key v
    simp only [StoreCall.run, StoreCall.answer, hrun]
    exact ht

theorem Refines.run {s : Store} {order : KeyOrder} {appends : List (Bytes × Version)}
    (h : s.Refines order appends) (hf : s.Fits) (call : StoreCall) :
    (call.run s).2.Refines order (appends ++ call.appended?.toList) ∧
      ∀ e, (call.run s).1 ≠ .failed e := by
  refine ⟨h.call hf.inMemory call, ?_⟩
  cases hcall : call.appended? with
  | none => exact (run_alike h.valid hf.inMemory hcall).2.2 hf
  | some a =>
    obtain ⟨key, v⟩ := a
    obtain rfl := StoreCall.eq_append hcall
    obtain ⟨t, hrun, -⟩ := h.append key v
    intro e he
    simp only [StoreCall.run, StoreCall.answer, hrun] at he
    cases he

theorem Refines.after {s : Store} {order : KeyOrder} {appends : List (Bytes × Version)}
    (h : s.Refines order appends) (calls : List StoreCall)
    (hf : ∀ n < calls.length, (s.after (calls.take n)).Fits) :
    (s.after calls).Refines order (appends ++ calls.filterMap StoreCall.appended?) := by
  induction calls generalizing s appends with
  | nil => simpa [Store.after] using h
  | cons call calls ih =>
    have hnow : s.Fits := hf 0 (Nat.succ_pos _)
    have hlater : ∀ n < calls.length, ((call.run s).2.after (calls.take n)).Fits := fun n hn =>
      hf (n + 1) (Nat.succ_lt_succ hn)
    have hrest := ih (h.run hnow call).1 hlater
    have hlist : call.appended?.toList ++ calls.filterMap StoreCall.appended? =
        (call :: calls).filterMap StoreCall.appended? := by
      cases hc : call.appended? <;> simp [hc]
    rw [List.append_assoc, hlist] at hrest
    exact hrest

/-- No run of calls fails, and every seek answers from the ascending list that the appends of the run
build, as long as the payload of every page stays below what the compression takes. -/
theorem run_refines_flat (order : KeyOrder) (paging : Paging) (calls : List StoreCall)
    (fits : ∀ n ≤ calls.length, ((empty order paging).after (calls.take n)).Fits)
    (call : StoreCall) :
    (∀ e, (call.run ((empty order paging).after calls)).1 ≠ .failed e) ∧
      Flat.Ascending order (Flat.ofAppends order (calls.filterMap StoreCall.appended?)) ∧
      ∀ m, call = .seek m → (call.run ((empty order paging).after calls)).1 =
        .record (Flat.pick order
          (Flat.ofAppends order (calls.filterMap StoreCall.appended?)) m) := by
  have href : ((empty order paging).after calls).Refines order
      (calls.filterMap StoreCall.appended?) :=
    (refines_empty order paging).after calls fun n hn => fits n (Nat.le_of_lt hn)
  have hfit : ((empty order paging).after calls).Fits := by
    have := fits calls.length (Nat.le_refl _)
    rwa [List.take_length] at this
  refine ⟨(href.run hfit call).2, Flat.ascending_ofAppends _, ?_⟩
  rintro m rfl
  rw [(run_seek href.valid m).1, href.ordered, href.records]

def scattered : List StoreCall :=
  [.append [2] ⟨1, some [20]⟩, .append [3] ⟨2, some [30]⟩, .append [1] ⟨3, some [10]⟩, .evictAll,
    .append [3] ⟨4, none⟩, .evictPage 0]

theorem run_refines_flat_scattered :
    let paging : Paging := { codec := Snappy.codec, capacity := 0 }
    (∀ n ≤ scattered.length, ((empty .bytewise paging).after (scattered.take n)).Fits) ∧
      (StoreCall.run ((empty .bytewise paging).after scattered) (.seek (.after [1]))).1 =
        .record (some ⟨[2], [⟨1, some [20]⟩]⟩) := by
  intro paging
  have fits : ∀ n ≤ scattered.length,
      ((empty .bytewise paging).after (scattered.take n)).Fits := by
    decide +kernel
  have hpick : Flat.pick .bytewise
      (Flat.ofAppends .bytewise (scattered.filterMap StoreCall.appended?)) (.after [1]) =
        some ⟨[2], [⟨1, some [20]⟩]⟩ := by
    decide +kernel
  refine ⟨fits, ?_⟩
  rw [(run_refines_flat .bytewise paging scattered fits (.seek (.after [1]))).2.2 _ rfl, hpick]

end Store

end Keyspan
