import Keyspan.Proofs.Store.Flat

set_option autoImplicit false
set_option relaxedAutoImplicit false

namespace Keyspan.Flat

open Std

variable {order : KeyOrder}

/-- What was appended under a key, newest first. -/
def chain (order : KeyOrder) (key : Bytes) (appends : List (Bytes × Version)) : List Version :=
  ((appends.filter fun a => order.compare a.1 key = .eq).map (·.2)).reverse

/-- A list of records that holds just what was appended. -/
structure Collects (order : KeyOrder) (appends : List (Bytes × Version)) (l : List Record) :
    Prop where
  versions : ∀ r ∈ l, r.versions = chain order r.key appends
  keyed : ∀ r ∈ l, ∃ a ∈ appends, a.1 = r.key
  complete : ∀ a ∈ appends, ∃ r ∈ l, order.compare r.key a.1 = .eq

theorem chain_concat_of_eq {key : Bytes} (appends : List (Bytes × Version)) {a : Bytes × Version}
    (h : order.compare a.1 key = .eq) :
    chain order key (appends ++ [a]) = a.2 :: chain order key appends := by
  simp [chain, List.filter_append, h]

theorem chain_concat_of_ne {key : Bytes} (appends : List (Bytes × Version)) {a : Bytes × Version}
    (h : order.compare a.1 key ≠ .eq) :
    chain order key (appends ++ [a]) = chain order key appends := by
  simp [chain, List.filter_append, h]

theorem chain_eq_nil {key : Bytes} {appends : List (Bytes × Version)}
    (h : ∀ a ∈ appends, order.compare a.1 key ≠ .eq) : chain order key appends = [] := by
  have hnil : (appends.filter fun a => order.compare a.1 key = .eq) = [] := by
    rw [List.filter_eq_nil_iff]
    intro a ha
    simpa using h a ha
  rw [chain, hnil]
  rfl

private theorem Collects.push {appends : List (Bytes × Version)} {l : List Record}
    (h : Collects order appends l) (key : Bytes) (v : Version)
    (hany : ∃ r ∈ l, order.compare r.key key = .eq) :
    Collects order (appends ++ [(key, v)])
      (l.map fun r => if order.compare r.key key = .eq then r.push v else r) := by
  have hkey : ∀ r : Record,
      (if order.compare r.key key = .eq then r.push v else r).key = r.key := by
    intro r
    split <;> rfl
  refine ⟨?_, ?_, ?_⟩
  · intro r hr
    obtain ⟨x, hx, rfl⟩ := List.mem_map.1 hr
    rw [hkey]
    split
    next heq =>
      rw [chain_concat_of_eq appends (a := (key, v)) (OrientedCmp.eq_symm heq), ← h.versions x hx]
      rfl
    next hne =>
      rw [chain_concat_of_ne appends (a := (key, v)) fun he => hne (OrientedCmp.eq_symm he)]
      exact h.versions x hx
  · intro r hr
    obtain ⟨x, hx, rfl⟩ := List.mem_map.1 hr
    obtain ⟨a, ha, hax⟩ := h.keyed x hx
    exact ⟨a, List.mem_append_left _ ha, hax.trans (hkey x).symm⟩
  · intro a ha
    have hold : ∃ r ∈ l, order.compare r.key a.1 = .eq := by
      rcases List.mem_append.1 ha with ha | ha
      · exact h.complete a ha
      · obtain rfl := List.mem_singleton.1 ha
        exact hany
    obtain ⟨r, hr, hra⟩ := hold
    refine ⟨_, List.mem_map_of_mem hr, ?_⟩
    rw [hkey]
    exact hra

private theorem Collects.insert {appends : List (Bytes × Version)} {l : List Record}
    (h : Collects order appends l) (key : Bytes) (v : Version)
    (hnone : ∀ r ∈ l, order.compare r.key key ≠ .eq) :
    Collects order (appends ++ [(key, v)])
      (l.filter (fun r => order.compare r.key key = .lt) ++ ⟨key, [v]⟩ ::
        l.filter fun r => order.compare r.key key = .gt) := by
  have hmem : ∀ r : Record, r ∈ l.filter (fun r => order.compare r.key key = .lt) ++ ⟨key, [v]⟩ ::
      l.filter (fun r => order.compare r.key key = .gt) ↔ r ∈ l ∨ r = ⟨key, [v]⟩ := by
    intro r
    simp only [List.mem_append, List.mem_cons, List.mem_filter, decide_eq_true_eq]
    constructor
    · rintro (⟨hr, -⟩ | rfl | ⟨hr, -⟩)
      · exact Or.inl hr
      · exact Or.inr rfl
      · exact Or.inl hr
    · rintro (hr | rfl)
      · cases hc : order.compare r.key key with
        | lt => exact Or.inl ⟨hr, rfl⟩
        | eq => exact absurd hc (hnone r hr)
        | gt => exact Or.inr (Or.inr ⟨hr, rfl⟩)
      · exact Or.inr (Or.inl rfl)
  have hfresh : ∀ a ∈ appends, order.compare a.1 key ≠ .eq := by
    intro a ha he
    obtain ⟨r, hr, hra⟩ := h.complete a ha
    exact hnone r hr (TransCmp.eq_trans hra he)
  refine ⟨?_, ?_, ?_⟩
  · intro r hr
    rcases (hmem r).1 hr with hr | rfl
    · rw [chain_concat_of_ne appends (a := (key, v)) fun he =>
        hnone r hr (OrientedCmp.eq_symm he)]
      exact h.versions r hr
    · rw [chain_concat_of_eq appends (a := (key, v)) ReflCmp.compare_self, chain_eq_nil hfresh]
  · intro r hr
    rcases (hmem r).1 hr with hr | rfl
    · obtain ⟨a, ha, har⟩ := h.keyed r hr
      exact ⟨a, List.mem_append_left _ ha, har⟩
    · exact ⟨(key, v), List.mem_append_right _ List.mem_cons_self, rfl⟩
  · intro a ha
    rcases List.mem_append.1 ha with ha | ha
    · obtain ⟨r, hr, hra⟩ := h.complete a ha
      exact ⟨r, (hmem r).2 (Or.inl hr), hra⟩
    · obtain rfl := List.mem_singleton.1 ha
      exact ⟨⟨key, [v]⟩, (hmem _).2 (Or.inr rfl), ReflCmp.compare_self⟩

private theorem Collects.append {appends : List (Bytes × Version)} {l : List Record}
    (h : Collects order appends l) (key : Bytes) (v : Version) :
    Collects order (appends ++ [(key, v)]) (append order key v l) := by
  rw [Flat.append]
  split
  next hany =>
    refine h.push key v ?_
    simpa using hany
  next hnone =>
    refine h.insert key v ?_
    simpa using hnone

/-- What appends build holds just what they appended. -/
theorem collects_ofAppends (appends : List (Bytes × Version)) :
    Collects order appends (ofAppends order appends) := by
  suffices h : ∀ past l, Collects order past l → Collects order (past ++ appends)
      (appends.foldl (fun l a => Flat.append order a.1 a.2 l) l) from
    h [] [] ⟨nofun, nofun, nofun⟩
  induction appends with
  | nil =>
    intro past l h
    rwa [List.append_nil]
  | cons a appends ih =>
    intro past l h
    have hrest := ih (past ++ [a]) _ (h.append a.1 a.2)
    rwa [List.append_assoc] at hrest

end Keyspan.Flat
