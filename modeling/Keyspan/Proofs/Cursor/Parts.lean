import Keyspan.Cursor.Search
import Keyspan.Cursor.Walk
import Keyspan.Proofs.Outcome

/-!
The parts that cursor calls are made of.

What holds of failing, counting and seeking, and passes to calls put together of such calls, holds of
all that a cursor call does before it moves its cursor. If it holds of moving the cursor and of giving
up pages too, it holds of the whole call.
-/

set_option autoImplicit false
set_option relaxedAutoImplicit false

namespace Keyspan.Scan

/-- A property that every part of a cursor call has, so long as the cursor stays where it is. -/
structure Pervasive (P : (α : Type) → ScanM α → Prop) : Prop extends Compositional P where
  throw : ∀ {α : Type} (e : Error), P α (throw e)
  count : ∀ f : ScanStats → ScanStats, P Unit (count f)
  seek : ∀ m : Seek, P (Option Record) (onStore (Store.seek m))

namespace Pervasive

variable {P : (α : Type) → ScanM α → Prop} (h : Pervasive P)
include h

theorem requireUnprepared (call : Positioning) : P Unit (requireUnprepared call) := by
  refine h.bind h.get fun s => ?_
  cases s.cursor.txn with
  | none => exact h.pure _
  | some txn =>
    dsimp only
    split
    · exact h.throw _
    · exact h.pure _

theorem requireStaged : P Bytes requireStaged := by
  refine h.bind h.get fun s => ?_
  split
  · exact h.pure _
  · exact h.throw _

theorem hunt (dir : Direction) (reader : Transaction) (onward : Bytes → Bool) (n : Nat) (m : Seek) :
    P Catch (hunt dir reader onward n m) := by
  induction n generalizing m with
  | zero => exact h.pure _
  | succ n ih =>
    refine h.bind (h.seek m) fun found => ?_
    cases found with
    | none => exact h.pure _
    | some r =>
      dsimp only
      split
      · refine h.bind h.get fun s => ?_
        split
        · exact h.pure _
        · exact h.bind (h.count _) fun _ => ih _
        · exact h.throw _
      · exact h.pure _

private theorem seed (dir : Direction) : P Seek (seed dir) := by
  refine h.bind h.get fun s => ?_
  split
  · exact h.bind (h.count _) fun _ => h.pure _
  · exact h.pure _

theorem origin (dir : Direction) : P Seek (origin dir) := by
  refine h.bind h.get fun s => ?_
  split
  · split
    · exact h.pure _
    · exact h.seed dir
  · exact h.seed dir

end Pervasive

/-- A property that the parts of cursor calls have which move the cursor and give up pages, too. -/
structure Entire (P : (α : Type) → ScanM α → Prop) : Prop extends Pervasive P where
  place : ∀ p : Place, P Unit (place p)
  release : ∀ key : Bytes, P Unit (onStore (Store.release key))

namespace Entire

variable {P : (α : Type) → ScanM α → Prop} (h : Entire P) {α β : Type}
include h

private theorem map {x : ScanM α} (hx : P α x) (f : α → β) : P β (f <$> x) := by
  rw [← bind_pure_comp]
  exact h.bind hx fun a => h.pure (f a)

private theorem land (x : Held) : P Entry (land x) := by
  refine h.bind h.get fun s => ?_
  split
  · exact h.throw _
  · split
    · exact h.bind (h.release _) fun _ => h.bind (h.place _) fun _ => h.pure _
    · exact h.bind (h.place _) fun _ => h.pure _

private theorem miss : P (Option α) miss :=
  h.bind (h.place _) fun _ => h.pure _

private theorem advance (dir : Direction) : P (Option Entry) (advance dir) := by
  refine h.bind (h.origin dir) fun m => h.bind h.get fun s => ?_
  refine h.bind (h.hunt dir s.reader _ _ m) fun found => ?_
  cases found with
  | held x => exact h.map (h.land x) some
  | barred r => exact h.bind (h.count _) fun _ => h.bind (h.place _) fun _ => h.pure _
  | nothing => exact h.bind (h.place _) fun _ => h.pure _

theorem step (dir : Direction) : P (Option Entry) (step dir) := by
  refine h.bind (h.requireUnprepared _) fun _ => h.bind h.get fun s => ?_
  split
  · exact h.pure _
  · exact h.advance dir

theorem search : P (Option Entry) search := by
  refine h.bind (h.requireUnprepared _) fun _ => ?_
  refine h.bind h.requireStaged fun key => h.bind h.get fun s => ?_
  split
  · refine h.bind (h.seek _) fun found => ?_
    cases found with
    | none => exact h.miss
    | some r =>
      dsimp only
      split
      · exact h.map (h.land _) some
      · exact h.miss
      · exact h.throw _
  · exact h.miss

private theorem nearAbove (key : Bytes) (lead : Option Bytes) :
    P (Option (Nearness × Entry)) (nearAbove key lead) := by
  refine h.bind h.get fun s => ?_
  refine h.bind (h.hunt .forward s.reader _ _ _) fun found => ?_
  cases found with
  | held x => exact h.bind (h.land x) fun _ => h.pure _
  | barred r =>
    dsimp only
    split
    · exact h.bind (h.count _) fun _ => h.pure _
    · exact h.pure _
  | nothing => exact h.pure _

private theorem nearBelow (key : Bytes) : P (Option (Nearness × Entry)) (nearBelow key) := by
  refine h.bind h.get fun s => ?_
  refine h.bind (h.hunt .backward s.reader _ _ _) fun found => ?_
  cases found with
  | held x => exact h.bind (h.land x) fun _ => h.pure _
  | barred r => exact h.pure _
  | nothing => exact h.pure _

theorem searchNear : P (Option (Nearness × Entry)) searchNear := by
  refine h.bind (h.requireUnprepared _) fun _ => ?_
  refine h.bind h.requireStaged fun key => h.bind h.get fun s => ?_
  refine h.bind (h.nearAbove key _) fun found => ?_
  cases found with
  | some found => exact h.pure _
  | none =>
    dsimp only
    split
    · exact h.miss
    · refine h.bind (h.nearBelow key) fun found => ?_
      cases found with
      | some found => exact h.pure _
      | none => exact h.miss

end Entire

end Keyspan.Scan
