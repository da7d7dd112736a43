import Keyspan.Proofs.Store.Parts
import Keyspan.Proofs.Store.Valid

set_option autoImplicit false
set_option relaxedAutoImplicit false

namespace Keyspan

namespace Store

/-- A call that only moves pages in and out of memory, and that does not fail where payloads fit. -/
def Harmless {α : Type} (call : StoreM α) : Prop :=
  ∀ s : Store, s.Valid → s.InMemory → ∃ t, s.Alike t ∧ t.Valid ∧
    ((∃ x, call.run s = .ok x t) ∨ ((∃ e, call.run s = .error e t) ∧ ¬ s.Fits))

namespace Harmless

variable {α β : Type}

private theorem pure (x : α) : Harmless (pure x) :=
  fun s hs _ => ⟨s, .refl s, hs, Or.inl ⟨x, rfl⟩⟩

private theorem get : Harmless get :=
  fun s hs _ => ⟨s, .refl s, hs, Or.inl ⟨s, rfl⟩⟩

private theorem bind {x : StoreM α} {f : α → StoreM β} (hx : Harmless x) (hf : ∀ a, Harmless (f a)) :
    Harmless (x >>= f) := by
  intro s hs hm
  obtain ⟨t, hst, ht, ⟨a, hrun⟩ | ⟨⟨e, hrun⟩, hfit⟩⟩ := hx s hs hm
  · obtain ⟨u, htu, hu, h⟩ := hf a t ht (hst.inMemory hm)
    refine ⟨u, hst.trans htu, hu, ?_⟩
    rw [EStateM.run_bind, hrun]
    rcases h with hok | ⟨herr, hfit⟩
    · exact Or.inl hok
    · exact Or.inr ⟨herr, fun h => hfit (hst.fits h)⟩
  · refine ⟨t, hst, ht, Or.inr ⟨⟨e, ?_⟩, hfit⟩⟩
    rw [EStateM.run_bind, hrun]

theorem compositional : Compositional fun _ call => Harmless call := ⟨pure, get, bind⟩

end Harmless

theorem harmless_evictPage (i : Nat) : Harmless (evictPage i) := by
  intro s hs hm
  simp only [evictPage, EStateM.run_bind, EStateM.run_get]
  cases hp : s.pages[i]? with
  | none => exact ⟨s, .refl s, hs, Or.inl ⟨false, rfl⟩⟩
  | some p =>
    have hmem : p ∈ s.pages := List.mem_of_getElem? hp
    rcases p.evict?_cases s.paging.compression (hm p hmem) with
      ⟨hev, -⟩ | ⟨q, hev, -, -, hsound, hq⟩ | ⟨hev, hbig⟩
    · refine ⟨s, .refl s, hs, Or.inl ⟨false, ?_⟩⟩
      simp only [hev]
      rfl
    · refine ⟨_, Alike.set_page hp hq { s.stats with evictions := s.stats.evictions + 1 },
        hs.set_page hp hsound hq _, Or.inl ⟨true, ?_⟩⟩
      simp only [hev]
      rfl
    · refine ⟨s, .refl s, hs, Or.inr ⟨⟨.compression, ?_⟩, fun hfit => ?_⟩⟩
      · simp only [hev]
        rfl
      · exact absurd (hfit p hmem) (Nat.not_lt.2 hbig)

theorem harmless_release (key : Bytes) : Harmless (release key) :=
  Harmless.compositional.release harmless_evictPage key

private theorem harmless_request (request : EvictionRequest) : Harmless request.run :=
  Harmless.compositional.request harmless_evictPage request

theorem serve_alike {s : Store} (hs : s.Valid) (hm : s.InMemory)
    (requests : List EvictionRequest) : s.Alike (s.serve requests) ∧ (s.serve requests).Valid := by
  induction requests generalizing s with
  | nil => exact ⟨.refl s, hs⟩
  | cons request requests ih =>
    have hstep : s.Alike (request.serve s) ∧ (request.serve s).Valid := by
      obtain ⟨t, hst, ht, ⟨n, hrun⟩ | ⟨⟨e, hrun⟩, -⟩⟩ := harmless_request request s hs hm
      · rw [EvictionRequest.serve, hrun]
        exact ⟨hst, ht⟩
      · rw [EvictionRequest.serve, hrun]
        exact ⟨hst, ht⟩
    obtain ⟨halike, hvalid⟩ := ih hstep.2 (hstep.1.inMemory hm)
    exact ⟨hstep.1.trans halike, hvalid⟩

end Store

end Keyspan
