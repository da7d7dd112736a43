/-!
What calls end with, whether they succeed or fail.

A call moves by a relation if it ends in a state related to the one that it started in, keeps a part
of the state if it ends with that part as it was, and is atomic if it changes nothing where it fails. Two
calls agree on a relation between their states if from related states they end with the same result in
related states. All of this but being atomic passes to what is put together of such calls.
-/

set_option autoImplicit false
set_option relaxedAutoImplicit false

namespace Keyspan

variable {ε σ τ α β : Type}

def finalState : EStateM.Result ε σ α → σ
  | .ok _ s => s
  | .error _ s => s

/-- A call that ends in a state related to the one that it started in. -/
def Moves (R : σ → σ → Prop) (call : EStateM ε σ α) : Prop :=
  ∀ s, R s (finalState (call.run s))

/-- A call that leaves a part of the state as it was. -/
def Keeps (part : σ → β) (call : EStateM ε σ α) : Prop :=
  ∀ s, part (finalState (call.run s)) = part s

/-- A call that leaves the state as it was wherever it fails. -/
def Atomic (call : EStateM ε σ α) : Prop :=
  ∀ s e t, call.run s = .error e t → t = s

/-- The state that a call makes, or why it fails. -/
def outcome (call : EStateM ε σ Unit) (s : σ) : Except ε σ :=
  match call.run s with
  | .ok _ t => .ok t
  | .error e _ => .error e

/-- A property of calls that passes to what is put together of such calls. -/
structure Compositional (P : (α : Type) → EStateM ε σ α → Prop) : Prop where
  pure : ∀ {α : Type} (a : α), P α (pure a)
  get : P σ get
  bind : ∀ {α β : Type} {x : EStateM ε σ α} {f : α → EStateM ε σ β}, P α x → (∀ a, P β (f a)) →
    P β (x >>= f)

inductive Matching (R : σ → τ → Prop) : EStateM.Result ε σ α → EStateM.Result ε τ α → Prop
  | ok {a : α} {s : σ} {t : τ} : R s t → Matching R (.ok a s) (.ok a t)
  | error {e : ε} {s : σ} {t : τ} : R s t → Matching R (.error e s) (.error e t)

/-- From related states both calls end with the same result in related states. -/
def Agree (R : σ → τ → Prop) (x : EStateM ε σ α) (y : EStateM ε τ α) : Prop :=
  ∀ s t, R s t → Matching R (x.run s) (y.run t)

namespace Moves

variable {R : σ → σ → Prop}

private theorem bind (htrans : ∀ s t u, R s t → R t u → R s u) {x : EStateM ε σ α}
    {f : α → EStateM ε σ β} (hx : Moves R x) (hf : ∀ a, Moves R (f a)) : Moves R (x >>= f) := by
  intro s
  have hs := hx s
  rw [EStateM.run_bind]
  cases hrun : x.run s with
  | ok a t =>
    rw [hrun] at hs
    exact htrans s t _ hs (hf a t)
  | error e t =>
    rw [hrun] at hs
    exact hs

theorem compositional (hrefl : ∀ s, R s s) (htrans : ∀ s t u, R s t → R t u → R s u) :
    Compositional fun α (call : EStateM ε σ α) => Moves R call :=
  ⟨fun _ => hrefl, hrefl, bind htrans⟩

end Moves

namespace Keeps

variable {γ : Type} {part : σ → γ}

theorem pure (a : α) : Keeps part (pure a : EStateM ε σ α) := fun _ => rfl

theorem throw (e : ε) : Keeps part (throw e : EStateM ε σ α) := fun _ => rfl

theorem get : Keeps part (get : EStateM ε σ σ) := fun _ => rfl

theorem bind {x : EStateM ε σ α} {f : α → EStateM ε σ β} (hx : Keeps part x)
    (hf : ∀ a, Keeps part (f a)) : Keeps part (x >>= f) :=
  Moves.bind (R := fun s t => part t = part s) (fun _ _ _ h k => k.trans h) hx hf

theorem tryCatch {x : EStateM ε σ α} {f : ε → EStateM ε σ α} (hx : Keeps part x)
    (hf : ∀ e, Keeps part (f e)) : Keeps part (tryCatch x f) := by
  intro s
  have hs := hx s
  show part (finalState (EStateM.tryCatch x f s)) = _
  rw [EStateM.run] at hs
  delta EStateM.tryCatch
  dsimp only
  cases hrun : x s with
  | ok a t =>
    rw [hrun] at hs
    exact hs
  | error e t =>
    rw [hrun] at hs
    exact (hf e t).trans hs

theorem compositional (part : σ → γ) :
    Compositional fun α (call : EStateM ε σ α) => Keeps part call :=
  ⟨pure, get, bind⟩

end Keeps

namespace Atomic

variable {call : EStateM ε σ Unit}

theorem throw (e : ε) : Atomic (throw e : EStateM ε σ α) := by
  intro s e' t h
  cases h
  rfl

theorem get_bind {f : σ → EStateM ε σ α} (h : ∀ s, Atomic (f s)) : Atomic (get >>= f) :=
  fun s e t hrun => h s s e t hrun

theorem then_modify (h : Atomic call) (f : σ → σ) : Atomic (call >>= fun _ => modify f) := by
  intro s e t hrun
  rw [EStateM.run_bind] at hrun
  cases hcall : call.run s with
  | ok _ u =>
    rw [hcall] at hrun
    cases hrun
  | error e' u =>
    rw [hcall] at hrun
    cases hrun
    exact h s e t hcall

theorem modify (f : σ → σ) : Atomic (modify f : EStateM ε σ Unit) := nofun

theorem run_eq (h : Atomic call) (s : σ) : call.run s =
    match outcome call s with
    | .ok t => .ok () t
    | .error e => .error e s := by
  rw [outcome]
  cases hcall : call.run s with
  | ok _ t => rfl
  | error e t => rw [h s e t hcall]

end Atomic

theorem exists_of_map_eq_ok {x : Except ε α} {f : α → β} {b : β} (h : x.map f = .ok b) :
    ∃ a, x = .ok a ∧ f a = b := by
  cases x with
  | error e => cases h
  | ok a => exact ⟨a, rfl, Except.ok.inj h⟩

theorem outcome_then_modify (call : EStateM ε σ Unit) (f : σ → σ) (s : σ) :
    outcome (call >>= fun _ => modify f) s = (outcome call s).map f := by
  rw [outcome, outcome, EStateM.run_bind]
  cases call.run s <;> rfl

namespace Matching

variable {R : σ → τ → Prop}

theorem bind {x : EStateM ε σ α} {y : EStateM ε τ α} {f : α → EStateM ε σ β}
    {g : α → EStateM ε τ β} {s : σ} {t : τ} (h : Matching R (x.run s) (y.run t))
    (hfg : ∀ a u v, x.run s = .ok a u → y.run t = .ok a v → R u v →
      Matching R ((f a).run u) ((g a).run v)) :
    Matching R ((x >>= f).run s) ((y >>= g).run t) := by
  rw [EStateM.run_bind, EStateM.run_bind]
  generalize x.run s = r at h hfg
  generalize y.run t = q at h hfg
  cases h with
  | ok hR => exact hfg _ _ _ rfl rfl hR
  | error hR => exact .error hR

theorem map {x : EStateM ε σ α} {y : EStateM ε τ α} {s : σ} {t : τ}
    (h : Matching R (x.run s) (y.run t)) (f : α → β) :
    Matching R ((f <$> x).run s) ((f <$> y).run t) := by
  rw [← bind_pure_comp, ← bind_pure_comp]
  exact h.bind fun a u v _ _ huv => .ok huv

theorem ite {p q : Prop} [Decidable p] [Decidable q] {x x' : EStateM ε σ α}
    {y y' : EStateM ε τ α} {s : σ} {t : τ} (hpq : q ↔ p)
    (h : p → Matching R (x.run s) (y.run t)) (h' : ¬ p → Matching R (x'.run s) (y'.run t)) :
    Matching R ((if p then x else x').run s) ((if q then y else y').run t) := by
  by_cases hp : p
  · rw [if_pos hp, if_pos (hpq.2 hp)]
    exact h hp
  · rw [if_neg hp, if_neg fun hq => hp (hpq.1 hq)]
    exact h' hp

end Matching

namespace Agree

variable {R : σ → τ → Prop}

theorem pure (a : α) : Agree R (pure a : EStateM ε σ α) (Pure.pure a) := fun _ _ h => .ok h

theorem throw (e : ε) : Agree R (throw e : EStateM ε σ α) (MonadExcept.throw e) :=
  fun _ _ h => .error h

theorem bind {x : EStateM ε σ α} {y : EStateM ε τ α} {f : α → EStateM ε σ β}
    {g : α → EStateM ε τ β} (h : Agree R x y) (hfg : ∀ a, Agree R (f a) (g a)) :
    Agree R (x >>= f) (y >>= g) := fun s t hR => (h s t hR).bind fun a u v _ _ huv => hfg a u v huv

theorem get_bind {f : σ → EStateM ε σ β} {g : τ → EStateM ε τ β}
    (h : ∀ s t, R s t → Matching R ((f s).run s) ((g t).run t)) :
    Agree R (get >>= f) (get >>= g) := h

theorem tryCatch {x : EStateM ε σ α} {y : EStateM ε τ α} {f : ε → EStateM ε σ α}
    {g : ε → EStateM ε τ α} (h : Agree R x y) (hfg : ∀ e, Agree R (f e) (g e)) :
    Agree R (tryCatch x f) (MonadExcept.tryCatch y g) := by
  intro s t hR
  have hxy := h s t hR
  show Matching R (EStateM.tryCatch x f s) (EStateM.tryCatch y g t)
  delta EStateM.tryCatch
  dsimp only
  have hx : x s = x.run s := rfl
  have hy : y t = y.run t := rfl
  rw [hx, hy]
  generalize x.run s = r at hxy
  generalize y.run t = q at hxy
  cases hxy with
  | ok hR => exact .ok hR
  | error hR => exact hfg _ _ _ hR

end Agree

end Keyspan
