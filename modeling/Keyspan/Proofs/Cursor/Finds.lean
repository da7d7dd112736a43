import Keyspan.Proofs.Cursor.Parts
import Keyspan.Session.CursorCall

set_option autoImplicit false
set_option relaxedAutoImplicit false

namespace Keyspan

def Held.Packs (f : Format) (h : Held) (e : Entry) : Prop :=
  f.unpackKey h.key = .ok e.key ∧ h.value = e.value

def Direction.stop (dir : Direction) (b : Bounds) : Option Bound :=
  match dir with
  | forward => b.upper
  | backward => b.lower

theorem Direction.isSome_stop {dir : Direction} {f : Format} {b : Bounds} {key : Bytes}
    (h : dir.admits f b key = false) : (dir.stop b).isSome := by
  cases dir with
  | forward =>
    show b.upper.isSome
    cases hb : b.upper with
    | some bound => rfl
    | none =>
      have hadmits : b.admitsForward f key = true := by rw [Bounds.admitsForward, hb]
      exact absurd (hadmits.symm.trans h) (by decide)
  | backward =>
    show b.lower.isSome
    cases hb : b.lower with
    | some bound => rfl
    | none =>
      have hadmits : b.admitsBackward f key = true := by rw [Bounds.admitsBackward, hb]
      exact absurd (hadmits.symm.trans h) (by decide)

namespace Scan

/-- The cursor and the format, which only landing, missing and stopping change. -/
def frame (s : Scan) : Cursor × Format :=
  (s.cursor, s.table.format)

theorem keeps_onStore {α : Type} (call : StoreM α) : Keeps frame (onStore call) := by
  intro s
  show frame (finalState (onStore call s)) = _
  simp only [onStore, Table.onStore, EStateM.run]
  cases call s.table.store <;> rfl

private theorem keeps_frame : Pervasive fun _ call => Keeps frame call where
  toCompositional := Keeps.compositional frame
  throw := .throw
  count _ _ := rfl
  seek _ := keeps_onStore _

theorem not_onward_of_barred {dir : Direction} {reader : Transaction} {onward : Bytes → Bool}
    {n : Nat} {m : Seek} {s u : Scan} {r : Record}
    (h : (hunt dir reader onward n m).run s = .ok (.barred r) u) : onward r.key = false := by
  induction n generalizing m s with
  | zero => cases h
  | succ n ih =>
    simp only [hunt, EStateM.run_bind] at h
    cases hseek : (onStore (Store.seek m)).run s with
    | error e t =>
      rw [hseek] at h
      cases h
    | ok found t =>
      rw [hseek] at h
      dsimp only at h
      cases found with
      | none => cases h
      | some x =>
        dsimp only at h
        split at h
        next =>
          simp only [EStateM.run_bind, EStateM.run_get] at h
          split at h
          · cases h
          · exact ih h
          · cases h
        next hno =>
          cases h
          simpa using hno

/-- A call that looks for an entry: it lands on what it finds, leaves the cursor where a miss may leave
it, or fails and leaves the cursor as it was. -/
def Finds {α : Type} (s : Scan) (found : α → Option Entry) (missed : Place → Prop)
    (call : ScanM α) : Prop :=
  match call.run s with
  | .ok a u => u.table.format = s.table.format ∧
    ∃ p, u.cursor = { s.cursor with place := p } ∧
      match found a with
      | some e => ∃ h, p = .on h ∧ h.Packs s.table.format e
      | none => missed p
  | .error _ u => u.frame = s.frame

namespace Finds

variable {α β : Type} {s : Scan} {found : α → Option Entry} {missed : Place → Prop}

private theorem throw (e : Error) : Finds s found missed (throw e) := rfl

theorem stay {a : α} (ha : found a = none) (h : missed s.cursor.place) :
    Finds s found missed (pure a) := by
  refine ⟨rfl, s.cursor.place, rfl, ?_⟩
  rw [ha]
  exact h

private theorem place {a : α} {p : Place} (ha : found a = none) (h : missed p) :
    Finds s found missed (Scan.place p >>= fun _ => pure a) := by
  refine ⟨rfl, p, rfl, ?_⟩
  rw [ha]
  exact h

theorem bind {x : ScanM β} {f : β → ScanM α} (hx : Keeps frame x)
    (hf : ∀ b u, x.run s = .ok b u → u.frame = s.frame → Finds u found missed (f b)) :
    Finds s found missed (x >>= f) := by
  have hs := hx s
  rw [Finds, EStateM.run_bind]
  cases hrun : x.run s with
  | error e u =>
    rw [hrun] at hs
    exact hs
  | ok b u =>
    rw [hrun] at hs
    have hfind := hf b u hrun hs
    have hcursor : u.cursor = s.cursor := congrArg Prod.fst hs
    have hformat : u.table.format = s.table.format := congrArg Prod.snd hs
    rw [Finds, hcursor, hformat] at hfind
    dsimp only
    cases hrest : (f b).run u with
    | ok a v =>
      rw [hrest] at hfind
      exact hfind
    | error e v =>
      rw [hrest] at hfind
      exact Eq.trans hfind hs

theorem map {x : ScanM β} {g : β → α} {found' : β → Option Entry}
    (hx : Finds s found' missed x) (hg : ∀ b, found (g b) = found' b) :
    Finds s found missed (g <$> x) := by
  rw [Finds] at hx
  rw [← bind_pure_comp, Finds, EStateM.run_bind]
  cases hrun : x.run s with
  | error e u =>
    rw [hrun] at hx
    exact hx
  | ok b u =>
    rw [hrun] at hx
    show _ ∧ ∃ p, u.cursor = _ ∧ match found (g b) with | some e => _ | none => _
    rw [hg]
    exact hx

theorem orElse {x : ScanM (Option β)} {f : Option β → ScanM (Option β)}
    {found : Option β → Option Entry} (hx : Finds s found (· = s.cursor.place) x)
    (hnone : found none = none) (hsome : ∀ b, (found (some b)).isSome)
    (hfirst : ∀ b, f (some b) = pure (some b))
    (hsecond : ∀ u, u.frame = s.frame → Finds u found missed (f none)) :
    Finds s found missed (x >>= f) := by
  rw [Finds] at hx
  rw [Finds, EStateM.run_bind]
  cases hrun : x.run s with
  | error e u =>
    rw [hrun] at hx
    exact hx
  | ok a u =>
    rw [hrun] at hx
    obtain ⟨hformat, p, hcursor, hp⟩ := hx
    cases a with
    | some b =>
      dsimp only
      rw [hfirst]
      refine ⟨hformat, p, hcursor, ?_⟩
      obtain ⟨e, he⟩ := Option.isSome_iff_exists.1 (hsome b)
      rw [he] at hp ⊢
      exact hp
    | none =>
      rw [hnone] at hp
      obtain rfl : p = s.cursor.place := hp
      have hfind := hsecond u (Prod.ext hcursor hformat)
      rw [Finds, show u.cursor = s.cursor from hcursor, hformat] at hfind
      dsimp only
      cases hrest : (f none).run u with
      | ok a v =>
        rw [hrest] at hfind
        exact hfind
      | error e v =>
        rw [hrest] at hfind
        exact Eq.trans hfind (Prod.ext hcursor hformat)

private theorem get_bind {f : Scan → ScanM α} (h : Finds s found missed (f s)) :
    Finds s found missed (get >>= f) := h

end Finds

private theorem finds_land (s : Scan) {missed : Place → Prop} (h : Held) :
    s.Finds some missed (land h) := by
  refine Finds.get_bind ?_
  cases hkey : s.table.format.unpackKey h.key with
  | error e => exact .throw e
  | ok key =>
    dsimp only
    have hplace : ∀ u : Scan, u.frame = s.frame →
        u.Finds some missed (do place (.on h); pure ⟨key, h.value⟩) := by
      intro u hu
      have hformat : u.table.format = s.table.format := congrArg Prod.snd hu
      refine ⟨rfl, .on h, rfl, h, rfl, ?_, rfl⟩
      rw [hformat]
      exact hkey
    split
    · exact .bind (keeps_onStore _) fun _ u _ hu => hplace u hu
    · exact hplace s rfl

/-- Where a step leaves a cursor that finds nothing: stopped as it was, off the end of the table, or
stopped now by a bound that is set. -/
def Stopped (s : Scan) (dir : Direction) (p : Place) : Prop :=
  p = s.cursor.place ∨ p = {} ∨
    (p = s.cursor.place.stop dir ∧ (dir.stop s.cursor.bounds).isSome)

private theorem finds_advance (s : Scan) (dir : Direction) :
    s.Finds id (s.Stopped dir) (advance dir) := by
  refine .bind (keeps_frame.origin dir) fun m u _ hu => .get_bind ?_
  have hcursor : u.cursor = s.cursor := congrArg Prod.fst hu
  refine .bind (keeps_frame.hunt dir u.reader _ _ m) fun found v hrun hv => ?_
  have hcursor' : v.cursor = s.cursor := (congrArg Prod.fst hv).trans hcursor
  cases found with
  | held h => exact (finds_land v h).map fun _ => rfl
  | barred r =>
    have hstop : (dir.stop s.cursor.bounds).isSome := by
      rw [← hcursor]
      exact Direction.isSome_stop (not_onward_of_barred hrun)
    refine .bind (keeps_frame.count _) fun _ w _ _ => .place rfl (Or.inr (Or.inr ⟨?_, hstop⟩))
    rw [hcursor]
  | nothing => exact .place rfl (Or.inr (Or.inl rfl))

theorem finds_step (s : Scan) (dir : Direction) : s.Finds id (s.Stopped dir) (step dir) := by
  refine .bind (keeps_frame.requireUnprepared _) fun _ u _ hu => .get_bind ?_
  have hcursor : u.cursor = s.cursor := congrArg Prod.fst hu
  split
  · exact .stay rfl (Or.inl (congrArg Cursor.place hcursor))
  · have hfind := finds_advance u dir
    have hsame : u.Stopped dir = s.Stopped dir := by
      funext p
      rw [Stopped, Stopped, hcursor]
    rwa [hsame] at hfind

private theorem finds_miss {α : Type} (s : Scan) {found : Option α → Option Entry}
    (h : found none = none) :
    s.Finds found (· = {}) (miss : ScanM (Option α)) := .place h rfl

theorem finds_search (s : Scan) : s.Finds id (· = {}) search := by
  refine .bind (keeps_frame.requireUnprepared _) fun _ u _ _ => ?_
  refine .bind keeps_frame.requireStaged fun key v _ _ => .get_bind ?_
  split
  · refine .bind (keeps_onStore _) fun found w _ _ => ?_
    cases found with
    | none => exact finds_miss w rfl
    | some r =>
      dsimp only
      split
      · exact (finds_land w _).map fun _ => rfl
      · exact finds_miss w rfl
      · exact .throw _
  · exact finds_miss v rfl

def nearEntry (found : Option (Nearness × Entry)) : Option Entry :=
  found.map Prod.snd

private theorem finds_nearAbove (s : Scan) (key : Bytes) (lead : Option Bytes) :
    s.Finds nearEntry (· = s.cursor.place) (nearAbove key lead) := by
  refine .get_bind (.bind (keeps_frame.hunt .forward s.reader _ _ _) fun found u _ hu => ?_)
  have hcursor : u.cursor = s.cursor := congrArg Prod.fst hu
  cases found with
  | held h =>
    dsimp only
    rw [bind_pure_comp]
    exact (finds_land u h).map fun _ => rfl
  | barred r =>
    dsimp only
    split
    · refine .bind (keeps_frame.count _) fun _ v _ hv => .stay rfl ?_
      rw [show v.cursor = u.cursor from congrArg Prod.fst hv, hcursor]
    · exact .stay rfl (congrArg Cursor.place hcursor)
  | nothing => exact .stay rfl (congrArg Cursor.place hcursor)

private theorem finds_nearBelow (s : Scan) (key : Bytes) :
    s.Finds nearEntry (· = s.cursor.place) (nearBelow key) := by
  refine .get_bind (.bind (keeps_frame.hunt .backward s.reader _ _ _) fun found u _ hu => ?_)
  have hcursor : u.cursor = s.cursor := congrArg Prod.fst hu
  cases found with
  | held h =>
    dsimp only
    rw [bind_pure_comp]
    exact (finds_land u h).map fun _ => rfl
  | barred r => exact .stay rfl (congrArg Cursor.place hcursor)
  | nothing => exact .stay rfl (congrArg Cursor.place hcursor)

theorem finds_searchNear (s : Scan) : s.Finds nearEntry (· = {}) searchNear := by
  refine .bind (keeps_frame.requireUnprepared _) fun _ u _ _ => ?_
  refine .bind keeps_frame.requireStaged fun key v _ _ => .get_bind ?_
  refine (finds_nearAbove v key _).orElse rfl (fun _ => rfl) (fun _ => rfl) fun w _ => ?_
  dsimp only
  split
  · exact finds_miss w rfl
  · exact (finds_nearBelow w key).orElse rfl (fun _ => rfl) (fun _ => rfl) fun x _ =>
      finds_miss x rfl

end Scan

end Keyspan
