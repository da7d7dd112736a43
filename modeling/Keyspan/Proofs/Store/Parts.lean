import Keyspan.Proofs.Outcome
import Keyspan.Session.StoreCall

set_option autoImplicit false
set_option relaxedAutoImplicit false

namespace Keyspan

namespace Compositional

open Store

variable {P : (α : Type) → StoreM α → Prop}

section Evicting

variable (hP : Compositional P) (h : ∀ i, P Bool (evictPage i))
include hP h

private theorem evictPages (l : List Nat) : P Nat (evictPages l) := by
  induction l with
  | nil => exact hP.pure 0
  | cons i l ih => exact hP.bind (h i) fun _ => hP.bind ih fun _ => hP.pure _

theorem evictAll : P Nat evictAll :=
  hP.bind hP.get fun _ => hP.evictPages h _

theorem evictPicked (n : Nat) (picks : List Nat) : P Nat (evictPicked n picks) := by
  induction n generalizing picks with
  | zero => exact hP.pure 0
  | succ n ih =>
    refine hP.bind hP.get fun s => ?_
    split
    · exact hP.pure 0
    · exact hP.bind (h _) fun _ => hP.bind (ih _) fun _ => hP.pure _

theorem evictContaining (key : Bytes) : P Bool (evictContaining key) :=
  hP.bind hP.get fun _ => h _

theorem release (key : Bytes) : P Unit (release key) :=
  hP.bind (hP.evictContaining h key) fun _ => hP.pure ()

theorem request (request : EvictionRequest) : P Nat request.run := by
  cases request with
  | all => exact hP.evictAll h
  | picked count picks => exact hP.evictPicked h count picks

end Evicting

section Loading

variable (hP : Compositional P) (h : ∀ i, P (List Record) (load i))
include hP h

private theorem firstFrom (isFront : Record → Bool) (count i : Nat) :
    P (Option Record) (firstFrom isFront count i) := by
  induction count generalizing i with
  | zero => exact hP.pure _
  | succ count ih =>
    refine hP.bind (h i) fun records => ?_
    split
    · exact hP.pure _
    · exact ih _

private theorem lastAmong (isFront : Record → Bool) (count : Nat) :
    P (Option Record) (lastAmong isFront count) := by
  induction count with
  | zero => exact hP.pure _
  | succ count ih =>
    refine hP.bind (h count) fun records => ?_
    split
    · exact hP.pure _
    · exact ih

theorem locate (m : Seek) : P (Option Record) (locate m) := by
  refine hP.bind hP.get fun s => ?_
  cases m with
  | first => exact hP.firstFrom h _ _ _
  | last => exact hP.lastAmong h _ _
  | exact key => exact hP.bind (h _) fun _ => hP.pure _
  | atOrAfter key => exact hP.firstFrom h _ _ _
  | after key => exact hP.firstFrom h _ _ _
  | atOrBefore key => exact hP.lastAmong h _ _
  | before key => exact hP.lastAmong h _ _

end Loading

end Compositional

variable {α β : Type} {part : Store → β}

theorem StoreCall.keeps_answer {call : StoreM α} (h : Keeps part call) (reply : α → Reply)
    (s : Store) : part (answer reply call s).2 = part s := by
  have hs := h s
  rw [answer]
  cases hrun : call.run s with
  | ok x t =>
    rw [hrun] at hs
    exact hs
  | error e t =>
    rw [hrun] at hs
    exact hs

section Evicting

variable (h : ∀ i, Keeps part (Store.evictPage i))
include h

private theorem Store.keeps_serve (s : Store) (requests : List EvictionRequest) :
    part (s.serve requests) = part s := by
  induction requests generalizing s with
  | nil => rfl
  | cons request requests ih =>
    have hserve : request.serve s = finalState (request.run.run s) := by
      rw [EvictionRequest.serve]
      cases request.run.run s <;> rfl
    show part ((request.serve s).serve requests) = _
    rw [ih, hserve, (Keeps.compositional part).request h request s]

theorem StoreCall.keeps_run {call : StoreCall} (happend : ∀ key v, call ≠ .append key v)
    (hseek : ∀ m, call ≠ .seek m) (s : Store) : part (call.run s).2 = part s := by
  have hkeeps : Compositional fun _ (c : StoreM _) => Keeps part c := Keeps.compositional part
  cases call with
  | append key v => exact absurd rfl (happend key v)
  | seek m => exact absurd rfl (hseek m)
  | evictPage i => exact keeps_answer (h i) _ s
  | evictAll => exact keeps_answer (hkeeps.evictAll h) _ s
  | evictPicked count picks => exact keeps_answer (hkeeps.evictPicked h count picks) _ s
  | evictContaining key => exact keeps_answer (hkeeps.evictContaining h key) _ s
  | release key => exact keeps_answer (hkeeps.release h key) _ s
  | serve requests => exact Store.keeps_serve h s requests
  | pages => rfl

end Evicting

end Keyspan
