import Keyspan.Bound.Basic
import Keyspan.Proofs.Key.Typed

/-!
Bounds as an interval of the key order.

Whatever calls were made on bounds, and whether these succeeded or failed, the lower end does not compare
above the upper one. A walk looks at one end for each record; it may do so because what one end admits
reaches on without a gap, and because only ends that compare equal can leave a key outside both.
-/

set_option autoImplicit false
set_option relaxedAutoImplicit false

namespace Keyspan

open Std

namespace Bounds

def at? (b : Bounds) : Side → Option Bound
  | .lower => b.lower
  | .upper => b.upper

def pair? (b : Bounds) (side : Side) (key : Bytes) : Option (Bytes × Bytes) :=
  match side with
  | .lower => b.upper.map fun u => (key, u.key)
  | .upper => b.lower.map fun l => (l.key, key)

/-- Where both ends are set, the lower one does not compare above the upper one. -/
def Ordered (f : Format) (b : Bounds) : Prop :=
  ∀ l u, b.lower = some l → b.upper = some u → (KeyOrder.typed f).compare l.key u.key ≠ .gt

variable {f : Format} {b b' : Bounds} {side : Side} {key x y z : Bytes} {inclusive : Bool} {e : Error}

private theorem at?_put (b : Bounds) (side s : Side) (bound : Option Bound) :
    (b.put side bound).at? s = if s = side then bound else b.at? s := by
  cases side <;> cases s <;> rfl

private theorem at?_clear (b : Bounds) (side : Option Side) (s : Side) :
    (b.clear side).at? s = if side = none ∨ side = some s then none else b.at? s := by
  cases side with
  | none => cases s <;> rfl
  | some side => cases side <;> cases s <;> rfl

theorem setPacked_run (f : Format) (b : Bounds) (side : Side) (key : Bytes) (inclusive : Bool) :
    (setPacked f side key inclusive).run b =
      match b.pair? side key with
      | some (lo, hi) =>
        if (KeyOrder.typed f).compare lo hi = .gt then
          .error (.invalidRange (f.describe lo) (f.describe hi)) b
        else .ok () (b.put side (some ⟨key, inclusive⟩))
      | none => .ok () (b.put side (some ⟨key, inclusive⟩)) := by
  have hcheck : ∀ lo hi : Bytes, (checkRange f lo hi).run b =
      if (KeyOrder.typed f).compare lo hi = .gt then
        .error (.invalidRange (f.describe lo) (f.describe hi)) b
      else .ok () b := by
    intro lo hi
    rw [checkRange]
    split <;> rfl
  cases side with
  | lower =>
    simp only [setPacked, EStateM.run_bind, EStateM.run_get]
    cases hu : b.upper with
    | none =>
      simp only [pair?, hu]
      rfl
    | some u =>
      simp only [pair?, hu, Option.map_some, EStateM.run_bind, hcheck]
      cases (KeyOrder.typed f).compare key u.key <;> rfl
  | upper =>
    simp only [setPacked, EStateM.run_bind, EStateM.run_get]
    cases hl : b.lower with
    | none =>
      simp only [pair?, hl]
      rfl
    | some l =>
      simp only [pair?, hl, Option.map_some, EStateM.run_bind, hcheck]
      cases (KeyOrder.typed f).compare l.key key <;> rfl

theorem setPacked_run_eq_error_iff : (setPacked f side key inclusive).run b = .error e b' ↔
    b' = b ∧ ∃ lo hi, b.pair? side key = some (lo, hi) ∧ (KeyOrder.typed f).compare lo hi = .gt ∧
      e = .invalidRange (f.describe lo) (f.describe hi) := by
  rw [setPacked_run]
  cases b.pair? side key with
  | none => exact ⟨nofun, nofun⟩
  | some p =>
    obtain ⟨lo, hi⟩ := p
    dsimp only
    constructor
    · intro h
      split at h
      next hgt =>
        cases h
        exact ⟨rfl, lo, hi, rfl, hgt, rfl⟩
      next => cases h
    · rintro ⟨rfl, _, _, hpair, hgt, rfl⟩
      cases hpair
      exact if_pos hgt

theorem setPacked_run_eq_ok_iff : (setPacked f side key inclusive).run b = .ok () b' ↔
    (∀ lo hi, b.pair? side key = some (lo, hi) → (KeyOrder.typed f).compare lo hi ≠ .gt) ∧
      b' = b.put side (some ⟨key, inclusive⟩) := by
  rw [setPacked_run]
  cases b.pair? side key with
  | none =>
    constructor
    · intro h
      cases h
      exact ⟨nofun, rfl⟩
    · rintro ⟨-, rfl⟩
      rfl
  | some p =>
    obtain ⟨lo, hi⟩ := p
    dsimp only
    constructor
    · intro h
      split at h
      next => cases h
      next hle =>
        cases h
        refine ⟨fun _ _ hpair => ?_, rfl⟩
        cases hpair
        exact hle
    · rintro ⟨hpair, rfl⟩
      exact if_neg (hpair lo hi rfl)

/-- A typed key fails for its shape before it fails for its place. -/
theorem set_run_eq_error_iff {key : Key} : (set f side key inclusive).run b = .error e b' ↔
    (b' = b ∧ ∃ m, f.check key = .error m ∧ e = .formatMismatch m) ∨
      f.check key = .ok () ∧ (setPacked f side key.encode inclusive).run b = .error e b' := by
  rw [set, Format.packKey, Format.pack]
  cases hcheck : f.check key with
  | error m =>
    constructor
    · intro h
      cases h
      exact Or.inl ⟨rfl, m, rfl, rfl⟩
    · rintro (⟨rfl, m', hm, rfl⟩ | ⟨hok, -⟩)
      · cases hm
        rfl
      · cases hok
  | ok _ =>
    refine ⟨fun h => Or.inr ⟨rfl, h⟩, ?_⟩
    rintro (⟨-, m, hm, -⟩ | ⟨-, h⟩)
    · cases hm
    · exact h

theorem set_run_eq_ok_iff {key : Key} : (set f side key inclusive).run b = .ok () b' ↔
    f.check key = .ok () ∧ (setPacked f side key.encode inclusive).run b = .ok () b' := by
  rw [set, Format.packKey, Format.pack]
  cases hcheck : f.check key with
  | error m =>
    constructor
    · intro h
      cases h
    · rintro ⟨hok, -⟩
      cases hok
  | ok _ => exact ⟨fun h => ⟨rfl, h⟩, And.right⟩

theorem ordered_put (h : ∀ lo hi, b.pair? side key = some (lo, hi) →
    (KeyOrder.typed f).compare lo hi ≠ .gt) : (b.put side (some ⟨key, inclusive⟩)).Ordered f := by
  intro l u hl hu
  cases side with
  | lower =>
    obtain rfl := Option.some.inj hl
    exact h key u.key (by rw [pair?, show b.upper = some u from hu]; rfl)
  | upper =>
    obtain rfl := Option.some.inj hu
    exact h l.key key (by rw [pair?, show b.lower = some l from hl]; rfl)

private theorem ordered_clear (b : Bounds) (side : Option Side) : (b.clear side).Ordered f := by
  intro l u hl hu
  match side with
  | none => cases hl
  | some .lower => cases hl
  | some .upper => cases hu

private theorem admitsForward_iff : b.admitsForward f key = true ↔ ∀ u, b.upper = some u →
    (KeyOrder.typed f).compare key u.key = .lt ∨
      ((KeyOrder.typed f).compare key u.key = .eq ∧ u.inclusive = true) := by
  rw [admitsForward]
  cases b.upper with
  | none => exact ⟨fun _ => nofun, fun _ => rfl⟩
  | some u =>
    simp only [Option.some.injEq, forall_eq']
    cases (KeyOrder.typed f).compare key u.key <;> simp

private theorem admitsBackward_iff : b.admitsBackward f key = true ↔ ∀ l, b.lower = some l →
    (KeyOrder.typed f).compare key l.key = .gt ∨
      ((KeyOrder.typed f).compare key l.key = .eq ∧ l.inclusive = true) := by
  rw [admitsBackward]
  cases b.lower with
  | none => exact ⟨fun _ => nofun, fun _ => rfl⟩
  | some l =>
    simp only [Option.some.injEq, forall_eq']
    cases (KeyOrder.typed f).compare key l.key <;> simp

theorem admitsForward_of_isLE (hxy : ((KeyOrder.typed f).compare x y).isLE = true)
    (hy : b.admitsForward f y = true) : b.admitsForward f x = true := by
  rw [admitsForward_iff] at hy ⊢
  intro u hu
  rcases hy u hu with hlt | ⟨heq, hin⟩
  · exact Or.inl (TransCmp.lt_of_isLE_of_lt hxy hlt)
  · rcases Ordering.isLE_iff_eq_lt_or_eq_eq.1 hxy with hlt | hsame
    · exact Or.inl (TransCmp.lt_of_lt_of_eq hlt heq)
    · exact Or.inr ⟨TransCmp.eq_trans hsame heq, hin⟩

theorem admitsBackward_of_isLE (hxy : ((KeyOrder.typed f).compare x y).isLE = true)
    (hx : b.admitsBackward f x = true) : b.admitsBackward f y = true := by
  have hyx : ((KeyOrder.typed f).compare y x).isGE = true := OrientedCmp.isGE_of_isLE hxy
  rw [admitsBackward_iff] at hx ⊢
  intro l hl
  rcases hx l hl with hgt | ⟨heq, hin⟩
  · exact Or.inl (TransCmp.gt_of_isGE_of_gt hyx hgt)
  · rcases Ordering.isGE_iff_eq_gt_or_eq_eq.1 hyx with hgt | hsame
    · exact Or.inl (TransCmp.gt_of_gt_of_eq hgt heq)
    · exact Or.inr ⟨TransCmp.eq_trans hsame heq, hin⟩

theorem admits_of_between (hxy : ((KeyOrder.typed f).compare x y).isLE = true)
    (hyz : ((KeyOrder.typed f).compare y z).isLE = true) (hx : b.admits f x = true)
    (hz : b.admits f z = true) : b.admits f y = true := by
  rw [admits, Bool.and_eq_true] at hx hz ⊢
  exact ⟨admitsForward_of_isLE hyz hz.1, admitsBackward_of_isLE hxy hx.2⟩

theorem Ordered.admits_either (h : b.Ordered f)
    (hdiffer : ∀ l u, b.lower = some l → b.upper = some u →
      (KeyOrder.typed f).compare l.key u.key ≠ .eq) (key : Bytes) :
    b.admitsForward f key = true ∨ b.admitsBackward f key = true := by
  refine or_iff_not_imp_left.2 fun hout => admitsBackward_iff.2 fun l hl => Or.inl ?_
  -- a key past the upper end is above the lower one
  obtain ⟨u, hu, hno⟩ : ∃ u, b.upper = some u ∧ (KeyOrder.typed f).compare key u.key ≠ .lt := by
    simp only [admitsForward_iff, not_forall, not_or] at hout
    obtain ⟨u, hu, hlt, -⟩ := hout
    exact ⟨u, hu, hlt⟩
  have hlu : (KeyOrder.typed f).compare u.key l.key = .gt := by
    cases hc : (KeyOrder.typed f).compare l.key u.key with
    | lt => exact OrientedCmp.gt_of_lt hc
    | eq => exact absurd hc (hdiffer l u hl hu)
    | gt => exact absurd hc (h l u hl hu)
  have hku : ((KeyOrder.typed f).compare key u.key).isGE = true :=
    Ordering.isGE_iff_ne_lt.2 hno
  exact TransCmp.gt_of_isGE_of_gt hku hlu

theorem admits_eq_false_of_pinched {l u : Bound} (hl : b.lower = some l) (hu : b.upper = some u)
    (hlu : (KeyOrder.typed f).compare l.key u.key = .eq)
    (hout : l.inclusive = false ∨ u.inclusive = false) (key : Bytes) : b.admits f key = false := by
  refine Bool.eq_false_iff.2 fun hin => ?_
  rw [admits, Bool.and_eq_true] at hin
  have hsame : (KeyOrder.typed f).compare key l.key = (KeyOrder.typed f).compare key u.key :=
    TransCmp.congr_right hlu
  rcases admitsForward_iff.1 hin.1 u hu with hlt | ⟨heq, huin⟩
  · rcases admitsBackward_iff.1 hin.2 l hl with hgt | ⟨heq, -⟩
    · rw [hsame, hlt] at hgt
      cases hgt
    · rw [hsame, hlt] at heq
      cases heq
  · rcases admitsBackward_iff.1 hin.2 l hl with hgt | ⟨-, hlin⟩
    · rw [hsame, heq] at hgt
      cases hgt
    · rw [hlin, huin] at hout
      rcases hout with hout | hout <;> cases hout

end Bounds

/-- A change of bounds: an end put at a key or at packed bytes, or ends taken away. -/
inductive BoundCall
  | set (side : Side) (key : Key) (inclusive : Bool)
  | setPacked (side : Side) (key : Bytes) (inclusive : Bool)
  | clear (side : Option Side)
  deriving DecidableEq, Repr

namespace BoundCall

def change (f : Format) : BoundCall → BoundsM Unit
  | set side key inclusive => Bounds.set f side key inclusive
  | setPacked side key inclusive => Bounds.setPacked f side key inclusive
  | clear side => modify (·.clear side)

def run (f : Format) (b : Bounds) (call : BoundCall) : Except Error Unit × Bounds :=
  match (call.change f).run b with
  | .ok _ b => (.ok (), b)
  | .error e b => (.error e, b)

def put? : BoundCall → Side → Option (Option Bound)
  | set side key inclusive, s => if s = side then some (some ⟨key.encode, inclusive⟩) else none
  | setPacked side key inclusive, s => if s = side then some (some ⟨key, inclusive⟩) else none
  | clear side, s => if side = none ∨ side = some s then some none else none

/-- The side and the packed key of a call that sets an end to a key of the format. -/
def packed? (f : Format) : BoundCall → Option (Side × Bytes)
  | set side key _ => if f.check key = .ok () then some (side, key.encode) else none
  | setPacked side key _ => some (side, key)
  | clear _ => none

def mismatch? (f : Format) : BoundCall → Option Mismatch
  | set _ key _ => match f.check key with
    | .error m => some m
    | .ok _ => none
  | _ => none

/-- With a call's key the ends would stand at `lo` and `hi`, the wrong way round. -/
def Crosses (f : Format) (b : Bounds) (call : BoundCall) (lo hi : Bytes) : Prop :=
  ∃ side key, call.packed? f = some (side, key) ∧ b.pair? side key = some (lo, hi) ∧
    (KeyOrder.typed f).compare lo hi = .gt

variable {f : Format} {b : Bounds} {call : BoundCall} {e : Error}

/-- A call fails for a key that does not fit the format, and for one that would cross the end opposite. It
has changed nothing then. -/
theorem change_run_eq_error_iff {b' : Bounds} : (call.change f).run b = .error e b' ↔
    b' = b ∧ ((∃ m, call.mismatch? f = some m ∧ e = .formatMismatch m) ∨
      ∃ lo hi, call.Crosses f b lo hi ∧ e = .invalidRange (f.describe lo) (f.describe hi)) := by
  have hcross : ∀ side key, call.packed? f = some (side, key) →
      ((∃ lo hi, call.Crosses f b lo hi ∧ e = .invalidRange (f.describe lo) (f.describe hi)) ↔
        ∃ lo hi, b.pair? side key = some (lo, hi) ∧ (KeyOrder.typed f).compare lo hi = .gt ∧
          e = .invalidRange (f.describe lo) (f.describe hi)) := by
    intro side key hpacked
    simp only [Crosses, hpacked, Option.some.injEq, Prod.mk.injEq]
    constructor
    · rintro ⟨lo, hi, ⟨_, _, ⟨rfl, rfl⟩, hpair, hgt⟩, he⟩
      exact ⟨lo, hi, hpair, hgt, he⟩
    · rintro ⟨lo, hi, hpair, hgt, he⟩
      exact ⟨lo, hi, ⟨side, key, ⟨rfl, rfl⟩, hpair, hgt⟩, he⟩
  cases call with
  | set side key inclusive =>
    rw [change, Bounds.set_run_eq_error_iff, mismatch?]
    cases hcheck : f.check key with
    | error m =>
      have hno : ∀ lo hi, ¬ (set side key inclusive).Crosses f b lo hi := by
        rintro lo hi ⟨s, k, hpacked, -⟩
        rw [packed?, hcheck, if_neg nofun] at hpacked
        cases hpacked
      simp [hno]
    | ok _ =>
      rw [Bounds.setPacked_run_eq_error_iff, hcross side key.encode (if_pos hcheck)]
      simp
  | setPacked side key inclusive =>
    rw [change, Bounds.setPacked_run_eq_error_iff, hcross side key rfl]
    exact and_congr_right fun _ => ⟨Or.inr, fun h => h.resolve_left nofun⟩
  | clear side =>
    constructor
    · nofun
    · rintro ⟨-, ⟨m, hm, -⟩ | ⟨lo, hi, ⟨s, k, hpacked, -⟩, -⟩⟩
      · cases hm
      · cases hpacked

theorem of_change_run_eq_ok {b' : Bounds} (h : (call.change f).run b = .ok () b') :
    b'.Ordered f ∧ ∀ s, b'.at? s = (call.put? s).getD (b.at? s) := by
  have hput : ∀ side key inclusive, (Bounds.setPacked f side key inclusive).run b = .ok () b' →
      b'.Ordered f ∧ ∀ s, b'.at? s = if s = side then some ⟨key, inclusive⟩ else b.at? s := by
    intro side key inclusive hset
    obtain ⟨hpair, rfl⟩ := Bounds.setPacked_run_eq_ok_iff.1 hset
    exact ⟨Bounds.ordered_put hpair, fun s => Bounds.at?_put b side s _⟩
  cases call with
  | set side key inclusive =>
    obtain ⟨hordered, hat⟩ := hput side key.encode inclusive (Bounds.set_run_eq_ok_iff.1 h).2
    refine ⟨hordered, fun s => ?_⟩
    rw [hat, put?]
    split <;> rfl
  | setPacked side key inclusive =>
    obtain ⟨hordered, hat⟩ := hput side key inclusive h
    refine ⟨hordered, fun s => ?_⟩
    rw [hat, put?]
    split <;> rfl
  | clear side =>
    cases h
    refine ⟨Bounds.ordered_clear b side, fun s => ?_⟩
    rw [Bounds.at?_clear, put?]
    split <;> rfl

theorem ordered_run (h : b.Ordered f) (call : BoundCall) : (call.run f b).2.Ordered f := by
  rw [run]
  cases hcall : (call.change f).run b with
  | ok _ b' => exact (of_change_run_eq_ok hcall).1
  | error e b' =>
    obtain ⟨rfl, -⟩ := change_run_eq_error_iff.1 hcall
    exact h

end BoundCall

namespace Bounds

def after (f : Format) (b : Bounds) (calls : List BoundCall) : Bounds :=
  calls.foldl (fun b call => (call.run f b).2) b

private theorem ordered_after {f : Format} {b : Bounds} (h : b.Ordered f) (calls : List BoundCall) :
    (b.after f calls).Ordered f := by
  induction calls generalizing b with
  | nil => exact h
  | cons call calls ih => exact ih (BoundCall.ordered_run h call)

/-- Whatever calls were made on bounds, the lower end does not compare above the upper one. The next call
fails just for a key that does not fit the format or that would cross the end opposite, and then leaves the
bounds as they are; otherwise it changes its own side alone. What the upper end admits is closed downward
and what the lower end admits is closed upward, so the keys in range are convex; every key is within one
end at least if they differ; and ends that compare equal admit nothing if either is exclusive. -/
theorem ends_delimit_interval (f : Format) (calls : List BoundCall) :
    let b := after f {} calls
    let cmp := (KeyOrder.typed f).compare
    (∀ l u, b.lower = some l → b.upper = some u → cmp l.key u.key ≠ .gt) ∧
    (∀ call : BoundCall,
      (∀ e, (call.run f b).1 = .error e ↔
        (∃ m, call.mismatch? f = some m ∧ e = .formatMismatch m) ∨
          ∃ lo hi, call.Crosses f b lo hi ∧ e = .invalidRange (f.describe lo) (f.describe hi)) ∧
      (∀ e, (call.run f b).1 = .error e → (call.run f b).2 = b) ∧
      ((call.run f b).1 = .ok () → ∀ s, (call.run f b).2.at? s = (call.put? s).getD (b.at? s))) ∧
    (∀ x y, (cmp x y).isLE = true → b.admitsForward f y = true → b.admitsForward f x = true) ∧
    (∀ x y, (cmp x y).isLE = true → b.admitsBackward f x = true → b.admitsBackward f y = true) ∧
    (∀ x y z, (cmp x y).isLE = true → (cmp y z).isLE = true → b.admits f x = true →
      b.admits f z = true → b.admits f y = true) ∧
    ((∀ l u, b.lower = some l → b.upper = some u → cmp l.key u.key ≠ .eq) →
      ∀ key, b.admitsForward f key = true ∨ b.admitsBackward f key = true) ∧
    ∀ l u, b.lower = some l → b.upper = some u → cmp l.key u.key = .eq →
      (l.inclusive = false ∨ u.inclusive = false) → ∀ key, b.admits f key = false := by
  intro b cmp
  have hordered : b.Ordered f := ordered_after (b := {}) nofun calls
  refine ⟨hordered, fun call => ⟨fun e => ?_, fun e he => ?_, fun hdone => ?_⟩,
    fun _ _ => admitsForward_of_isLE, fun _ _ => admitsBackward_of_isLE,
    fun _ _ _ => admits_of_between, hordered.admits_either,
    fun _ _ hl hu => admits_eq_false_of_pinched hl hu⟩
  · rw [BoundCall.run]
    cases hcall : (call.change f).run b with
    | ok _ b' =>
      refine ⟨nofun, fun he => ?_⟩
      have hfailed := BoundCall.change_run_eq_error_iff.2 ⟨rfl, he⟩
      rw [hcall] at hfailed
      cases hfailed
    | error e' b' =>
      obtain ⟨hb, he'⟩ := BoundCall.change_run_eq_error_iff.1 hcall
      constructor
      · intro h
        cases h
        exact he'
      · intro he
        have hfailed := BoundCall.change_run_eq_error_iff.2 ⟨hb, he⟩
        rw [hcall] at hfailed
        cases hfailed
        rfl
  · rw [BoundCall.run] at he ⊢
    cases hcall : (call.change f).run b with
    | ok _ b' =>
      rw [hcall] at he
      cases he
    | error e' b' => exact (BoundCall.change_run_eq_error_iff.1 hcall).1
  · rw [BoundCall.run] at hdone ⊢
    cases hcall : (call.change f).run b with
    | ok _ b' => exact (BoundCall.of_change_run_eq_ok hcall).2
    | error e' b' =>
      rw [hcall] at hdone
      cases hdone

/-- Ends put at one key from both sides, after bytes that end too early to stand above it. -/
def pinched : List BoundCall :=
  [.set .lower (.int 50) true, .setPacked .upper [1, 2] true, .set .upper (.string "50") true,
    .set .upper (.int 50) false]

theorem ends_delimit_interval_pinched :
    let f : Format := ⟨[.int], by decide⟩
    let b := after f {} pinched
    let key := Key.encode (.int 50)
    b.lower = some ⟨key, true⟩ ∧ b.upper = some ⟨key, false⟩ ∧
      (KeyOrder.typed f).compare key key = .eq ∧ (∀ k, b.admits f k = false) ∧
      (BoundCall.run f b (.setPacked .upper [] true)).2 = b := by
  intro f b key
  have hl : b.lower = some ⟨key, true⟩ := by decide +kernel
  have hu : b.upper = some ⟨key, false⟩ := by decide +kernel
  have hsame : (KeyOrder.typed f).compare key key = .eq := by decide +kernel
  obtain ⟨-, hcalls, -, -, -, -, hpinched⟩ := ends_delimit_interval f pinched
  refine ⟨hl, hu, hsame, hpinched _ _ hl hu hsame (Or.inr rfl), ?_⟩
  obtain ⟨hfails, hkept, -⟩ := hcalls (.setPacked .upper [] true)
  have hcross : BoundCall.Crosses f b (.setPacked .upper [] true) key [] :=
    ⟨.upper, [], rfl, by rw [pair?, hl]; rfl, by decide +kernel⟩
  exact hkept _ ((hfails _).2 (Or.inr ⟨key, [], hcross, rfl⟩))

end Bounds

end Keyspan
