import Keyspan.Proofs.Cursor.Deciding
import Keyspan.Proofs.Cursor.Search
import Keyspan.Proofs.Key.Leading

/-!
The record that decides a near search.

A near search prefers the records that are not smaller than the staged key, in ascending order, to those
that are, in descending order. The first of them that both bounds admit and that is not hidden from the
reader decides it. Each of its two hunts looks at the bound ahead alone: its seek has taken care of the
bound behind, whichever side of that bound the staged key is on.
-/

set_option autoImplicit false
set_option relaxedAutoImplicit false

namespace Keyspan

open Std

namespace Direction

variable {dir : Direction} {f : Format} {b : Bounds}

theorem reaches_of_not_meets {x y : Bytes} (h : ¬ dir.Meets (.typed f) y x)
    (hx : dir.reaches f b x = true) : dir.reaches f b y = true := by
  cases hxy : (KeyOrder.typed f).compare x y with
  | eq =>
    have hsame : ∀ z, (KeyOrder.typed f).compare x z = (KeyOrder.typed f).compare y z :=
      fun z => TransCmp.congr_left hxy
    cases dir <;>
      simpa only [reaches, Bounds.admitsForward, Bounds.admitsBackward, hsame] using hx
  | lt =>
    cases dir with
    | forward =>
      have hmeets : forward.Meets (.typed f) x y := hxy
      exact reaches_of_meets hmeets hx
    | backward => exact absurd (OrientedCmp.gt_of_lt hxy) h
  | gt =>
    cases dir with
    | forward => exact absurd (OrientedCmp.lt_of_gt hxy) h
    | backward =>
      have hmeets : backward.Meets (.typed f) x y := hxy
      exact reaches_of_meets hmeets hx

end Direction

/-- How a key that compares so with the staged one is near to it. -/
def Nearness.ofOrdering : Ordering → Nearness
  | .lt => smaller
  | .eq => exact
  | .gt => larger

def Flat.nearOrder (f : Format) (key : Bytes) (l : List Record) : List Record :=
  (l.filter fun r => (KeyOrder.typed f).compare r.key key ≠ .lt) ++
    l.reverse.filter fun r => (KeyOrder.typed f).compare r.key key = .lt

theorem Flat.nearOrder_perm (f : Format) (key : Bytes) (l : List Record) :
    (nearOrder f key l).Perm l := by
  have hback := (List.reverse_perm l).filter fun r => (KeyOrder.typed f).compare r.key key = .lt
  have hsides := List.filter_append_perm (fun r => (KeyOrder.typed f).compare r.key key ≠ .lt) l
  refine (hback.append_left _).trans ?_
  simpa using hsides

namespace Scan

variable {s : Scan} {α : Type} {key : Bytes}

/-- The first record, as a near search prefers them, that both bounds admit and that is not hidden from
the reader. -/
def nearest? (s : Scan) (key : Bytes) : Option Record :=
  ((Flat.nearOrder s.table.format key s.table.store.records).filter fun r =>
    s.cursor.bounds.admits s.table.format r.key).find? fun r => s.table.judge s.reader r ≠ .hidden

def settled (s : Scan) (decides : Option Record) (reply : Held → Entry → α)
    (missed : Except Error α × Place) : Except Error α × Place :=
  match decides with
  | none => missed
  | some r =>
    match s.table.judge s.reader r with
    | .value b => s.landed ⟨r.key, b⟩ (reply ⟨r.key, b⟩)
    | _ => (.error (s.conflict r.key), s.cursor.place)

def nears (s : Scan) (key : Bytes) (decides : Option Record) :
    Except Error (Option (Nearness × Entry)) × Place :=
  s.settled decides
    (fun h e => some (.ofOrdering ((KeyOrder.typed s.table.format).compare h.key key), e))
    (.ok none, {})

theorem mem_nearest? {r : Record} (h : s.nearest? key = some r) : r ∈ s.table.store.records ∧
    s.cursor.bounds.admits s.table.format r.key = true ∧ s.table.judge s.reader r ≠ .hidden := by
  obtain ⟨hmem, hadmits⟩ := List.mem_filter.1 (List.mem_of_find?_eq_some h)
  have hno := List.find?_some h
  exact ⟨(Flat.nearOrder_perm _ key _).mem_iff.1 hmem, hadmits, of_decide_eq_true hno⟩

private theorem settled_or (x y : Option Record) (reply : Held → Entry → α)
    (missed : Except Error α × Place) :
    s.settled (x.or y) reply missed = s.settled x reply (s.settled y reply missed) := by
  cases x <;> rfl

theorem settled_congr {decides : Option Record} {reply reply' : Held → Entry → α}
    {missed : Except Error α × Place}
    (h : ∀ r b, decides = some r → reply ⟨r.key, b⟩ = reply' ⟨r.key, b⟩) :
    s.settled decides reply missed = s.settled decides reply' missed := by
  cases decides with
  | none => rfl
  | some r =>
    simp only [settled]
    cases s.table.judge s.reader r with
    | value b => simp only [h r b rfl]
    | hidden => rfl
    | conflict => rfl

theorem hunted_hunt {onward : Bytes → Bool} {l : List Record} (reply : Held → Entry → α)
    (missed : Except Error α × Place)
    (hclosed : l.Pairwise fun x y => onward x.key = false → onward y.key = false) :
    s.hunted (Flat.hunt (s.table.judge s.reader) onward l) reply missed =
      s.settled ((l.filter fun r => onward r.key).find? fun r => s.table.judge s.reader r ≠ .hidden)
        reply missed := by
  cases hdecides : (l.filter fun r => onward r.key).find?
      fun r => s.table.judge s.reader r ≠ .hidden with
  | none =>
    rcases Flat.hunt_of_undecided hdecides with ⟨r, hhunt, -⟩ | ⟨hhunt, -⟩
    · rw [hhunt]
      rfl
    · rw [hhunt]
      rfl
  | some r =>
    rw [Flat.hunt_of_decided hclosed hdecides]
    simp only [settled]
    cases s.table.judge s.reader r <;> rfl

theorem nearness_eq {f : Format} {found : Bytes}
    (h : (KeyOrder.typed f).compare found key ≠ .lt) :
    nearness f found key = .ofOrdering ((KeyOrder.typed f).compare found key) := by
  rw [nearness]
  cases hc : (KeyOrder.typed f).compare found key with
  | lt => exact absurd hc h
  | eq => rfl
  | gt => rfl

theorem leadOf_eq_none (h : s.cursor.options.prefixSearch = true → ¬ s.table.format.IsSlice) :
    s.leadOf key = none := by
  rw [leadOf]
  split
  next hprefix =>
    rw [Format.leadField?]
    split
    next hfields => exact absurd (Or.inl hfields) (h hprefix)
    next hfields => exact absurd (Or.inr hfields) (h hprefix)
    next => rfl
  next => rfl

theorem keyed_of_staged {call : Positioning} {r : Bytes → Except Error α × Place}
    (unprepared : ∀ txn, s.cursor.txn = some txn → s.table.ledger.state txn ≠ .prepared)
    (staged : s.cursor.staged = some key) : s.keyed call r = r key := by
  rw [keyed, heldUp_eq_false unprepared, staged]
  rfl

section Origin

variable {dir : Direction} {f : Format} {b : Bounds}

/-- A seek from a key within the starting bound, or else from that bound, accepts the records on one
side of the key that are within the bound. -/
theorem accepts_near {m : Seek} {r : Record} (p : Bool)
    (haccepts : m.accepts (.typed f) r = p)
    (hon : p = true → dir.reaches f b key = true → dir.reaches f b r.key = true)
    (hoff : p = false → dir.reaches f b r.key = true → dir.reaches f b key = true) :
    (if dir.reaches f b key then m else seedSeek dir b).accepts (.typed f) r =
      (p && dir.reaches f b r.key) := by
  by_cases hin : dir.reaches f b key = true
  · rw [if_pos hin, haccepts]
    cases p with
    | false => rfl
    | true => exact (hon rfl hin).symm
  · rw [if_neg hin, accepts_seedSeek]
    cases p with
    | true => rfl
    | false => exact Bool.eq_false_iff.2 fun h => hin (hoff rfl h)

private theorem nearOrigin_eq (s : Scan) (key : Bytes) : s.nearOrigin key =
    if Direction.forward.reaches s.table.format s.cursor.bounds key then .atOrAfter key
    else seedSeek .forward s.cursor.bounds := by
  rw [nearOrigin, Direction.reaches, seedSeek, Direction.start]
  cases hlower : s.cursor.bounds.lower with
  | none => rw [Bounds.admitsBackward, hlower, if_pos rfl]
  | some lower => rfl

private theorem nearOriginBelow_eq (s : Scan) (key : Bytes) : s.nearOriginBelow key =
    if Direction.backward.reaches s.table.format s.cursor.bounds key then .before key
    else seedSeek .backward s.cursor.bounds := by
  rw [nearOriginBelow, Direction.reaches, seedSeek, Direction.start]
  cases hupper : s.cursor.bounds.upper with
  | none => rw [Bounds.admitsForward, hupper, if_pos rfl]
  | some upper => rfl

theorem accepts_nearOrigin (s : Scan) (key : Bytes) (r : Record) :
    (s.nearOrigin key).accepts (.typed s.table.format) r =
      (decide ((KeyOrder.typed s.table.format).compare r.key key ≠ .lt) &&
        Direction.forward.reaches s.table.format s.cursor.bounds r.key) := by
  rw [nearOrigin_eq]
  apply accepts_near
  · rw [Seek.accepts]
    cases (KeyOrder.typed s.table.format).compare r.key key <;> rfl
  · intro hp
    have hnot : ¬ Direction.forward.Meets (.typed s.table.format) r.key key := of_decide_eq_true hp
    exact Direction.reaches_of_not_meets hnot
  · intro hp
    have hmeets : Direction.forward.Meets (.typed s.table.format) r.key key :=
      not_not.1 (of_decide_eq_false hp)
    exact Direction.reaches_of_meets hmeets

theorem accepts_nearOriginBelow (s : Scan) (key : Bytes) (r : Record) :
    (s.nearOriginBelow key).accepts (.typed s.table.format) r =
      (decide ((KeyOrder.typed s.table.format).compare r.key key = .lt) &&
        Direction.backward.reaches s.table.format s.cursor.bounds r.key) := by
  rw [nearOriginBelow_eq]
  apply accepts_near
  · rw [Seek.accepts]
    cases (KeyOrder.typed s.table.format).compare r.key key <;> rfl
  · intro hp
    have hmeets : Direction.backward.Meets (.typed s.table.format) key r.key :=
      OrientedCmp.gt_of_lt (of_decide_eq_true hp)
    exact Direction.reaches_of_meets hmeets
  · intro hp
    have hnot : ¬ Direction.backward.Meets (.typed s.table.format) key r.key :=
      fun hmeets => of_decide_eq_false hp (OrientedCmp.lt_of_gt hmeets)
    exact Direction.reaches_of_not_meets hnot

end Origin

section Ahead

variable (hordered : s.table.store.order = .typed s.table.format)
include hordered

/-- The record that decides is the first that the one hunt may return, or else the first that the other
may. -/
theorem nearest?_eq (key : Bytes) : s.nearest? key =
    (s.firstAhead? .forward (s.nearOrigin key)).or
      (s.firstAhead? .backward (s.nearOriginBelow key)) := by
  rw [firstAhead?, firstAhead?, filter_ahead hordered (accepts_nearOrigin s key),
    filter_ahead hordered (accepts_nearOriginBelow s key), nearest?, Flat.nearOrder,
    List.filter_append, List.find?_append, List.filter_filter, List.filter_filter]
  simp only [Bool.and_comm, Direction.arrange]

private theorem accepts_of_firstAhead? {dir : Direction} {m : Seek} {r : Record}
    (h : s.firstAhead? dir m = some r) : m.accepts (.typed s.table.format) r = true := by
  have hmem := (List.mem_filter.1 (List.mem_of_find?_eq_some h)).1
  rw [← hordered]
  exact (Flat.mem_ahead.1 hmem).2

theorem hunted_ahead (hs : s.table.store.Valid) (dir : Direction) (m : Seek)
    (reply : Held → Entry → α) (missed : Except Error α × Place) :
    s.hunted (Flat.hunt (s.table.judge s.reader) (dir.admits s.table.format s.cursor.bounds)
      (s.table.ahead dir m)) reply missed = s.settled (s.firstAhead? dir m) reply missed := by
  apply hunted_hunt
  exact (meets_ahead hs hordered dir m).imp fun hxy hx => Direction.not_admits_of_meets hxy hx

/-- Without a leading part to stay in, a near search is decided by the nearest record. -/
theorem neared_eq_nears (hs : s.table.store.Valid)
    (unprepared : ∀ txn, s.cursor.txn = some txn → s.table.ledger.state txn ≠ .prepared)
    (staged : s.cursor.staged = some key) (hlead : s.leadOf key = none) :
    s.neared = s.nears key (s.nearest? key) := by
  have habove : s.quarryAbove key = Flat.hunt (s.table.judge s.reader)
      (Direction.forward.admits s.table.format s.cursor.bounds)
      (s.table.ahead .forward (s.nearOrigin key)) := by
    rw [quarryAbove, hlead]
    simp only [hasLead, Bool.and_true]
    rfl
  have hbelow : s.quarryBelow key = Flat.hunt (s.table.judge s.reader)
      (Direction.backward.admits s.table.format s.cursor.bounds)
      (s.table.ahead .backward (s.nearOriginBelow key)) := rfl
  rw [neared, keyed_of_staged unprepared staged]
  simp only [hlead, Option.isSome_none, Bool.false_eq_true, if_false]
  rw [habove, hbelow, hunted_ahead hordered hs, hunted_ahead hordered hs, nears,
    nearest?_eq hordered, settled_or]
  -- each hunt names what it finds after the side of the key that it looks at
  refine (settled_congr fun r b hr => ?_).trans (congrArg _ (settled_congr fun r b hr => ?_))
  · have haccepts := accepts_of_firstAhead? hordered hr
    rw [accepts_nearOrigin, Bool.and_eq_true, decide_eq_true_iff] at haccepts
    rw [nearness_eq haccepts.1]
  · have haccepts := accepts_of_firstAhead? hordered hr
    rw [accepts_nearOriginBelow, Bool.and_eq_true, decide_eq_true_iff] at haccepts
    rw [haccepts.1]
    rfl

end Ahead

end Scan

end Keyspan
