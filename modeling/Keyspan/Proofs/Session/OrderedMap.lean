import Keyspan.Proofs.Compression.Literal
import Keyspan.Proofs.Session.Apart
import Keyspan.Proofs.Session.Range
import Keyspan.Proofs.Session.Shown

/-!
A table is an ordered map that a bounded scan lists.

After writes on their own, the steps of a new cursor list what was last written to the keys in range, in
typed order from either end, whatever pages are evicted in between.
-/

set_option autoImplicit false
set_option relaxedAutoImplicit false

namespace Keyspan

open Std

theorem Format.exists_sorted {f : Format} {keys : List Key} (h : ∀ k ∈ keys, f.check k = .ok ()) :
    ∃ l : List Key, l.Pairwise (fun a b => a.compare b = .lt) ∧ ∀ k, k ∈ l ↔ k ∈ keys := by
  induction keys with
  | nil => exact ⟨[], List.Pairwise.nil, fun _ => Iff.rfl⟩
  | cons k keys ih =>
    have hk := h k List.mem_cons_self
    have hkeys := fun x hx => h x (List.mem_cons_of_mem k hx)
    obtain ⟨l, hsorted, hmem⟩ := ih hkeys
    refine ⟨l.filter (fun x => x.compare k = .lt) ++ k :: l.filter fun x => k.compare x = .lt,
      List.pairwise_append.2 ⟨hsorted.filter _, List.pairwise_cons.2 ⟨?_, hsorted.filter _⟩, ?_⟩, ?_⟩
    · exact fun x hx => of_decide_eq_true (List.mem_filter.1 hx).2
    · intro x hx y hy
      have hxk : x.compare k = .lt := of_decide_eq_true (List.mem_filter.1 hx).2
      rcases List.mem_cons.1 hy with rfl | hy
      · exact hxk
      · exact TransCmp.lt_trans hxk (of_decide_eq_true (List.mem_filter.1 hy).2)
    · intro x
      rw [List.mem_append, List.mem_cons, List.mem_filter, List.mem_filter, List.mem_cons, hmem x]
      constructor
      · rintro (⟨hx, -⟩ | rfl | ⟨hx, -⟩)
        · exact Or.inr hx
        · exact Or.inl rfl
        · exact Or.inr hx
      · rintro (rfl | hx)
        · exact Or.inr (Or.inl rfl)
        · cases hc : x.compare k with
          | lt => exact Or.inl ⟨hx, rfl⟩
          | eq => exact Or.inr (Or.inl (Format.eq_of_compare (hkeys x hx) hk hc))
          | gt => exact Or.inr (Or.inr ⟨hx, decide_eq_true (OrientedCmp.lt_of_gt hc)⟩)

theorem Entry.eq_of_sorted {es es' : List Entry}
    (h : es.Pairwise fun x y => x.key.compare y.key = .lt)
    (h' : es'.Pairwise fun x y => x.key.compare y.key = .lt) (hmem : ∀ e, e ∈ es ↔ e ∈ es') :
    es = es' := by
  have hnodup : ∀ l : List Entry, l.Pairwise (fun x y => x.key.compare y.key = .lt) → l.Nodup := by
    refine fun l hl => List.Pairwise.imp ?_ hl
    rintro x y hlt rfl
    have heq : x.key.compare x.key = .eq := ReflCmp.compare_self
    rw [hlt] at heq
    cases heq
  refine List.Perm.eq_of_pairwise ?_ h h'
    ((List.perm_ext_iff_of_nodup (hnodup es h) (hnodup es' h')).2 hmem)
  intro x y _ _ hxy hyx
  rw [OrientedCmp.gt_of_lt hxy] at hyx
  cases hyx

def KeyRange.listed? (range : KeyRange) (writes : List (Key × Option Bytes)) (key : Key) :
    Option Entry :=
  if range.admits key then (lastWritten writes key).map (Entry.mk key) else none

private theorem KeyRange.listed?_eq_some_iff {range : KeyRange} {writes : List (Key × Option Bytes)}
    {key : Key} {e : Entry} : range.listed? writes key = some e ↔
      e.key = key ∧ lastWritten writes key = some e.value ∧ range.admits key = true := by
  obtain ⟨k, v⟩ := e
  rw [listed?]
  split
  next hin =>
    rw [Option.map_eq_some_iff]
    constructor
    · rintro ⟨b, hb, he⟩
      obtain ⟨rfl, rfl⟩ := Entry.mk.inj he
      exact ⟨rfl, hb, hin⟩
    · rintro ⟨rfl, hb, -⟩
      exact ⟨v, hb, rfl⟩
  next hno => exact ⟨nofun, fun he => absurd he.2.2 hno⟩

theorem exists_lastWritten {f : Format} {writes : List (Key × Option Bytes)}
    (h : ∀ w ∈ writes, f.check w.1 = .ok ()) (range : KeyRange) :
    ∃ es : List Entry, es.Pairwise (fun x y => x.key.compare y.key = .lt) ∧
      ∀ key v, ⟨key, v⟩ ∈ es ↔ lastWritten writes key = some v ∧ range.admits key = true := by
  have hkeys : ∀ k ∈ writes.map Prod.fst, f.check k = .ok () := by
    intro k hk
    obtain ⟨w, hw, rfl⟩ := List.mem_map.1 hk
    exact h w hw
  obtain ⟨l, hsorted, hmem⟩ := Format.exists_sorted hkeys
  refine ⟨l.filterMap (range.listed? writes), ?_, fun key v => ?_⟩
  · refine List.pairwise_filterMap.2 (List.Pairwise.imp ?_ hsorted)
    intro k k' hlt e he e' he'
    rw [(KeyRange.listed?_eq_some_iff.1 he).1, (KeyRange.listed?_eq_some_iff.1 he').1]
    exact hlt
  · rw [List.mem_filterMap]
    constructor
    · rintro ⟨k, -, he⟩
      obtain ⟨rfl, hv, hin⟩ := KeyRange.listed?_eq_some_iff.1 he
      exact ⟨hv, hin⟩
    · rintro ⟨hv, hin⟩
      obtain ⟨w, hw, rfl⟩ := exists_write_of_lastWritten hv
      exact ⟨w.1, (hmem _).2 (List.mem_map_of_mem hw),
        KeyRange.listed?_eq_some_iff.2 ⟨rfl, hv, hin⟩⟩

private theorem Call.isApart_of_isEviction {call : Call} (h : call.isEviction = true) (i j : Nat) :
    call.isApart i j = true := by
  cases call with
  | store call => cases call <;> first | rfl | cases h
  | _ => cases h

private theorem Call.footprint_le {call : Call} {calls : List Call} (h : call ∈ calls) :
    call.footprint ≤ footprints calls := by
  induction calls with
  | nil => cases h
  | cons c calls ih =>
    rw [footprints_cons]
    rcases List.mem_cons.1 h with rfl | h
    · exact Nat.le_add_right _ _
    · exact Nat.le_trans (ih h) (Nat.le_add_left _ _)

namespace Session

/-- A scan on its own, with nothing but evictions between its steps. -/
structure Resting (f : Format) (log : Log) (dir : Direction) (calls : List Call) (s : Session) :
    Prop where
  follows : s.Follows f log
  room : log.weight + Call.footprints calls < 2 ^ 64
  quiet : ∀ call ∈ calls, call = .cursor 0 dir.call ∨ call.isEviction = true

variable {f : Format} {log : Log} {dir : Direction} {c : Cursor} {call : Call} {calls : List Call}
  {s : Session} {writes : List (Key × Option Bytes)}

theorem Resting.ready (h : Resting f log dir (call :: calls) s) (hauto : log.Autocommits f writes)
    (hreader : c.txn = none) (hfits : c.options.releaseEvict = true → s.table.store.Fits) :
    Scan.Ready ⟨c, s.table⟩ f c.bounds (ShownBy f (log.view (.typed f) none)) False := by
  have hroom := h.room
  have hscan : Scan.reader ⟨c, s.table⟩ = s.table.ledger.implicit := by
    rw [Scan.reader, hreader]
  have hreads : ∀ x ∈ s.table.store.records,
      s.table.ledger.Reads s.table.ledger.implicit log log x.versions := by
    intro x hx
    rw [h.follows.table.versions_eq hx]
    exact h.follows.table.reads_implicit x.key
  refine ⟨h.follows.table.format, rfl, h.follows.table.store.valid, hfits, ?_, ?_, ?_⟩
  · intro txn htxn
    rw [hreader] at htxn
    cases htxn
  · refine h.follows.table.shows (by omega) (fun k v => Log.updates_ne_nil_of_view) fun x hx => ?_
    rw [hscan, Log.view, ← h.follows.table.versions_eq hx]
    exact (hreads x hx).settled_or_conflict.symm
  · intro x hx hconflict
    rw [hscan] at hconflict
    obtain ⟨-, v, -, -, hprepared⟩ := (hreads x hx).conflict_iff.1 hconflict
    cases hauto.committed _ _ hprepared

private theorem Resting.step (h : Resting f log dir (call :: calls) s) :
    Resting f log dir calls (s.run call).2 := by
  have hroom := h.room
  rw [Call.footprints_cons] at hroom
  refine ⟨?_, by omega, fun c hc => h.quiet c (List.mem_cons_of_mem call hc)⟩
  rcases h.quiet call List.mem_cons_self with rfl | hcall
  · exact h.follows.run rfl (by omega)
  · obtain ⟨hevents, -, hraw⟩ := run_eviction hcall s
    have hstep := h.follows.run hraw (by omega)
    rw [hevents] at hstep
    exact hstep

theorem scanning_resting (hauto : log.Autocommits f writes) (hreader : c.txn = none)
    (dir : Direction) :
    Scanning (fun calls s => Resting f log dir calls s ∧ Walked 0 0 dir c calls s) 0 dir f c.bounds
      (ShownBy f (log.view (.typed f) none)) False :=
  scanning_walked
    (fun _ _ _ p h hfits => h.ready (c := { c with place := p }) hauto hreader hfits)
    fun _ _ _ h _ => h.step

private theorem replies_eq {replies : List Reply} {es : List Entry}
    (hlen : replies.length = es.length + 1) (hentries : ∀ reply ∈ replies, ∃ e, reply = .entry e)
    (hfound : (replies.filterMap Reply.found?).takeWhile Option.isSome <+: es.map some)
    (hdone : none ∈ replies.filterMap Reply.found? →
      (replies.filterMap Reply.found?).takeWhile Option.isSome = es.map some) :
    replies = (es.map fun e => .entry (some e)) ++ [.entry none] := by
  let found := replies.filterMap Reply.found?
  have hreplies : replies = found.map .entry := by
    have hall : ∀ l : List Reply, (∀ reply ∈ l, ∃ e, reply = .entry e) →
        l = (l.filterMap Reply.found?).map .entry := by
      intro l
      induction l with
      | nil => exact fun _ => rfl
      | cons reply l ih =>
        intro hl
        obtain ⟨e, rfl⟩ := hl reply List.mem_cons_self
        exact congrArg _ (ih fun r hr => hl r (List.mem_cons_of_mem _ hr))
    exact hall replies hentries
  have hcount : found.length = es.length + 1 := by
    rw [← hlen, hreplies, List.length_map]
  have hsplit : found.takeWhile Option.isSome ++ found.dropWhile Option.isSome = found :=
    List.takeWhile_append_dropWhile
  have hshort := hfound.length_le
  rw [List.length_map] at hshort
  have hrest := congrArg List.length hsplit
  rw [List.length_append, hcount] at hrest
  obtain ⟨x, rest, hx⟩ : ∃ x rest, found.dropWhile Option.isSome = x :: rest := by
    refine List.exists_cons_of_ne_nil fun hnil => ?_
    rw [hnil, List.length_nil] at hrest
    have hshort' : (found.takeWhile Option.isSome).length ≤ es.length := hshort
    omega
  have hnone : x = none := by
    have hhead := List.head_dropWhile_not Option.isSome (l := found) (by simp [hx])
    simpa [hx] using hhead
  subst hnone
  have hmem : none ∈ found := by
    rw [← hsplit, hx]
    exact List.mem_append_right _ List.mem_cons_self
  have hfront : found.takeWhile Option.isSome = es.map some := hdone hmem
  have hend : rest = [] := by
    rw [hfront, hx, List.length_map, List.length_cons] at hrest
    exact List.length_eq_zero_iff.1 (by omega)
  rw [hreplies, ← hsplit, hfront, hx, hend, List.map_append, List.map_map]
  rfl

theorem follows_opened (f : Format) (paging : Paging)
    (hkeys : ∀ w ∈ writes, f.check w.1 = .ok ()) {range : KeyRange} (hvalid : range.Valid f)
    {options : CursorOptions} {sides : List Side} (hsides : ∀ side, side ∈ sides)
    (hcalls : calls.filter (fun call => !call.isEviction) =
      writes.map Call.ofWrite ++ .openCursor options :: sides.filterMap range.call?)
    (hroom : Call.footprints calls < 2 ^ 64)
    (hsize : ∀ side b, range side = some b → b.1.encode.length < 2 ^ 64) :
    ∃ log c, ((fresh f paging).after calls).Follows f log ∧ log.Autocommits f writes ∧
      log.weight ≤ Call.footprints calls ∧ ((fresh f paging).after calls).cursors = [c] ∧
        c = { id := c.id, options := options, bounds := range.bounds } := by
  obtain ⟨written, opening, rfl, hwritten, hopening⟩ := List.filter_eq_append_iff.1 hcalls
  obtain ⟨idle, limits, rfl, hidle, -, hlimits⟩ := List.filter_eq_cons_iff.1 hopening
  have hfront : (written ++ idle).filter (fun call => !call.isEviction) =
      writes.map Call.ofWrite := by
    rw [List.filter_append, hwritten, List.filter_eq_nil_iff.2 hidle, List.append_nil]
  rw [← List.append_assoc] at hroom ⊢
  rw [after_append, Call.footprints_append, Call.footprints_cons]
  rw [Call.footprints_append, Call.footprints_cons] at hroom
  have hempty : Log.weight [] = 0 := rfl
  obtain ⟨h, hauto, hcursors⟩ := (follows_fresh f paging).autocommits (Log.autocommits_nil f)
    hfront hkeys (by omega)
  have hweight := weight_log_le (fresh f paging) [] (written ++ idle)
  rw [List.append_nil] at h hauto hweight
  have hopened := h.run (rfl : (Call.openCursor options).isRaw = false) (by omega)
  let c : Cursor :=
    { id := ((fresh f paging).after (written ++ idle)).table.nextCursor
      options := options }
  have hc : (((fresh f paging).after (written ++ idle)).run (.openCursor options)).2.cursors =
      [{ c with bounds := (range.onSides []).bounds }] := by
    show ((fresh f paging).after (written ++ idle)).cursors ++ [c] = [c]
    rw [hcursors]
    rfl
  obtain ⟨hlimited, all, hall, hlast⟩ := hopened.limits hvalid hsize rfl hc hlimits (by
    show Log.weight ((fresh f paging).log (written ++ idle)) + Call.footprints limits < 2 ^ 64
    omega)
  have hrange : range.onSides all = range := by
    funext side
    rw [KeyRange.onSides]
    split
    next => rfl
    next hno => exact ((hall side (Or.inl (hsides side))).resolve_right hno).symm
  rw [hrange] at hlast
  refine ⟨_, _, hlimited, hauto, ?_, hlast, rfl⟩
  show Log.weight ((fresh f paging).log (written ++ idle)) ≤ _
  omega

theorem length_lt_of_opening {range : KeyRange} {options : CursorOptions} {sides : List Side}
    (hsides : ∀ side, side ∈ sides)
    (hcalls : calls.filter (fun call => !call.isEviction) =
      writes.map Call.ofWrite ++ .openCursor options :: sides.filterMap range.call?)
    (hroom : Call.footprints calls < 2 ^ 64) :
    (∀ w ∈ writes, w.1.encode.length < 2 ^ 64) ∧
      ∀ side b, range side = some b → b.1.encode.length < 2 ^ 64 := by
  have hin : ∀ call ∈ writes.map Call.ofWrite ++ .openCursor options ::
      sides.filterMap range.call?, call.footprint ≤ Call.footprints calls := by
    intro call hcall
    rw [← hcalls] at hcall
    exact Call.footprint_le (List.mem_filter.1 hcall).1
  constructor
  · intro w hw
    have hfoot := hin _ (List.mem_append_left _ (List.mem_map_of_mem hw))
    have hlen := Call.length_key_le_ofWrite w
    omega
  · intro side b hb
    have hcall : Call.cursor 0 (.setBound side b.1 b.2) ∈ sides.filterMap range.call? :=
      List.mem_filterMap.2 ⟨side, hsides side, by rw [KeyRange.call?, hb]; rfl⟩
    have hfoot := hin _ (List.mem_append_right _ (List.mem_cons_of_mem _ hcall))
    have hlen : 64 + b.1.encode.length = (Call.cursor 0 (.setBound side b.1 b.2)).footprint := rfl
    omega

theorem not_isStep_of_opening {range : KeyRange} {options : CursorOptions} {sides : List Side}
    (hcalls : calls.filter (fun call => !call.isEviction) =
      writes.map Call.ofWrite ++ .openCursor options :: sides.filterMap range.call?) :
    ∀ call ∈ calls, ¬ call.isStep 0 dir = true := by
  intro call hcall hstep
  obtain rfl := Call.isStep_iff.1 hstep
  have hfiltered : Call.cursor 0 dir.call ∈ calls.filter fun call => !call.isEviction :=
    List.mem_filter.2 ⟨hcall, rfl⟩
  rw [hcalls] at hfiltered
  rcases List.mem_append.1 hfiltered with hw | hopen
  · obtain ⟨⟨key, value⟩, -, heq⟩ := List.mem_map.1 hw
    cases value <;> cases heq
  · rcases List.mem_cons.1 hopen with heq | hlimit
    · cases heq
    · obtain ⟨side, -, hside⟩ := List.mem_filterMap.1 hlimit
      obtain ⟨b, -, heq⟩ := Option.map_eq_some_iff.1 hside
      cases dir <;> cases heq

/-- With nothing but evictions in between, one step more than there are entries finds them all, and
then none. -/
theorem Follows.replies_resting (h : s.Follows f log) (hauto : log.Autocommits f writes)
    (hc : s.cursors = [c]) (hstart : c.position = .unpositioned) (hreader : c.txn = none)
    {es : List Entry} (hes : Entries f c.bounds (log.view (.typed f) none) es)
    (hsteps : calls.filter (fun call => !call.isEviction) =
      List.replicate (es.length + 1) (.cursor 0 dir.call))
    (hroom : log.weight + Call.footprints calls < 2 ^ 64)
    (hfits : c.options.releaseEvict = true →
      ∀ n ≤ calls.length, (s.after (calls.take n)).table.store.Fits) :
    s.repliesTo (Call.isStep 0 dir) calls =
      ((dir.arrange es).map fun e => .entry (some e)) ++ [.entry none] := by
  obtain ⟨all, hall, hheld⟩ := hes.lists dir
  have hquiet : ∀ call ∈ calls, call = .cursor 0 dir.call ∨ call.isEviction = true := by
    intro call hmem
    cases hcall : call.isEviction with
    | true => exact Or.inr rfl
    | false =>
      have hstep : call ∈ calls.filter fun call => !call.isEviction :=
        List.mem_filter.2 ⟨hmem, by rw [hcall]; rfl⟩
      rw [hsteps] at hstep
      exact Or.inl (List.eq_of_mem_replicate hstep)
  have hpick : calls.filter (Call.isStep 0 dir) = calls.filter fun call => !call.isEviction := by
    refine List.filter_congr fun call hcall => ?_
    rcases hquiet call hcall with rfl | he
    · exact Call.isStep_iff.2 rfl
    · cases call with
      | store call =>
        rw [he]
        rfl
      | _ => cases he
  have hget : s.cursors[0]? = some c := by
    rw [hc]
    rfl
  have hwalked : Walked 0 0 dir c calls s :=
    ⟨⟨c.place, hget⟩, fun call hcall => (hquiet call hcall).imp_right fun he =>
      Call.isApart_of_isEviction he 0 0, hfits⟩
  have hresting : Resting f log dir calls s := ⟨h, hroom, hquiet⟩
  have hwalk := scanning_resting hauto hreader dir
  obtain ⟨hfound, hdone⟩ := hwalk.found hall ⟨hresting, hwalked⟩ hget (Or.inl ⟨hstart, rfl⟩)
  rw [hheld] at hfound hdone
  refine replies_eq ?_ (fun reply hreply => ?_) hfound hdone
  · rw [length_repliesTo, hpick, hsteps, List.length_replicate]
    cases dir with
    | forward => rfl
    | backward => exact congrArg (· + 1) List.length_reverse.symm
  · exact (hwalk.replies ⟨hresting, hwalked⟩ reply hreply).resolve_right fun hfail => hfail.1

theorem entries_lastWritten {range : KeyRange} (hvalid : range.Valid f)
    (hsize : ∀ side b, range side = some b → b.1.encode.length < 2 ^ 64)
    (hkeys : ∀ w ∈ writes, f.check w.1 = .ok () ∧ w.1.encode.length < 2 ^ 64)
    (hauto : log.Autocommits f writes) (hv : log.Valid) {es : List Entry}
    (hsorted : es.Pairwise fun x y => x.key.compare y.key = .lt)
    (hmem : ∀ key v, ⟨key, v⟩ ∈ es ↔
      lastWritten writes key = some v ∧ range.admits key = true) :
    Entries f range.bounds (log.view (.typed f) none) es := by
  refine ⟨hsorted, fun key v => ?_⟩
  rw [hmem]
  constructor
  · rintro ⟨hwritten, hadmits⟩
    obtain ⟨w, hw, rfl⟩ := exists_write_of_lastWritten hwritten
    obtain ⟨hkey, hkeysize⟩ := hkeys w hw
    refine ⟨hkey, hkeysize, ?_, (hauto.view_eq_value_iff hv hkey hkeysize).2 hwritten⟩
    rw [KeyRange.admits_bounds hvalid hsize hkey hkeysize]
    exact hadmits
  · rintro ⟨hkey, hkeysize, hadmits, hview⟩
    refine ⟨(hauto.view_eq_value_iff hv hkey hkeysize).1 hview, ?_⟩
    rw [← KeyRange.admits_bounds hvalid hsize hkey hkeysize]
    exact hadmits

/-- A table is an ordered map. Whatever was written to it in transactions of their own, there is one
list of what was last written to the keys in range, in typed order and each once. A new cursor with
this range finds the list forward or backward, and after it none, with no step failing, whichever
pages are evicted before, between and after the calls. -/
theorem scan_lists_map (f : Format) (writes : List (Key × Option Bytes))
    (keyed : ∀ w ∈ writes, f.check w.1 = .ok ()) (range : KeyRange) (valid : range.Valid f) :
    ∃ es : List Entry, es.Pairwise (fun x y => x.key.compare y.key = .lt) ∧
      (∀ key v, ⟨key, v⟩ ∈ es ↔ lastWritten writes key = some v ∧ range.admits key = true) ∧
      ∀ (paging : Paging) (options : CursorOptions) (sides : List Side) (dir : Direction)
        (calls : List Call), (∀ side, side ∈ sides) →
        calls.filter (fun call => !call.isEviction) = writes.map Call.ofWrite ++
          .openCursor options :: sides.filterMap range.call? ++
            List.replicate (es.length + 1) (.cursor 0 dir.call) →
        Call.footprints calls < 2 ^ 64 →
        (options.releaseEvict = true →
          ∀ n ≤ calls.length, ((fresh f paging).after (calls.take n)).table.store.Fits) →
        (fresh f paging).repliesTo (Call.isStep 0 dir) calls =
          ((dir.arrange es).map fun e => .entry (some e)) ++ [.entry none] := by
  obtain ⟨es, hsorted, hmem⟩ := exists_lastWritten keyed range
  refine ⟨es, hsorted, hmem, ?_⟩
  intro paging options sides dir calls hsides hcalls hroom hfits
  obtain ⟨head, steps, rfl, hhead, hsteps⟩ := List.filter_eq_append_iff.1 hcalls
  rw [Call.footprints_append] at hroom
  obtain ⟨hkeys, hsize⟩ := length_lt_of_opening hsides hhead (by omega)
  obtain ⟨log, c, h, hauto, hweight, hcursors, hc⟩ :=
    follows_opened f paging keyed valid hsides hhead (by omega) hsize
  have hbounds : c.bounds = range.bounds := by rw [hc]
  have hreader : c.txn = none := by rw [hc]
  have hstart : c.place = {} := by rw [hc]
  have hentries : Entries f c.bounds (log.view (.typed f) none) es := by
    rw [hbounds]
    exact entries_lastWritten valid hsize (fun w hw => ⟨keyed w hw, hkeys w hw⟩) hauto
      h.table.valid hsorted hmem
  rw [repliesTo_append_of_none (not_isStep_of_opening hhead)]
  refine h.replies_resting hauto hcursors (congrArg Place.position hstart) hreader hentries hsteps (by omega) ?_
  intro hrelease n hn
  rw [← after_append, ← List.take_length_add_append]
  rw [hc] at hrelease
  refine hfits hrelease (head.length + n) ?_
  rw [List.length_append]
  omega

/-- Writes to keys of both signs, one of them again and one of them undone. -/
def mapped : List (Key × Option Bytes) :=
  [(.int 5, some [1]), (.int (-2), some [2]), (.int 9, some [3]), (.int 5, some [4]),
    (.int 7, some [5]), (.int 7, none)]

theorem scan_lists_map_evicted :
    let range : KeyRange
      | .lower => some (.int (-2), true)
      | .upper => some (.int 9, false)
    (fresh ⟨[.int], by decide⟩ { codec := Snappy.codec, capacity := 2 }).repliesTo (Call.isStep 0 .backward)
        (mapped.map Call.ofWrite ++ .store .evictAll :: .openCursor {} ::
          [Side.lower, .upper].filterMap range.call? ++
            [.cursor 0 .prev, .store (.evictPage 0), .cursor 0 .prev, .cursor 0 .prev]) =
      [.entry (some ⟨.int 5, [4]⟩), .entry (some ⟨.int (-2), [2]⟩), .entry none] := by
  intro range
  have hvalid : range.Valid ⟨[.int], by decide⟩ := by
    refine ⟨?_, ?_⟩
    · intro side b hb
      cases side <;> obtain rfl := Option.some.inj hb <;> rfl
    · intro a b ha hb
      obtain rfl := Option.some.inj ha
      obtain rfl := Option.some.inj hb
      decide
  have hkeyed : ∀ w ∈ mapped, (⟨[.int], by decide⟩ : Format).check w.1 = .ok () := by
    intro w hw
    simp only [mapped, List.mem_cons, List.not_mem_nil, or_false] at hw
    rcases hw with rfl | rfl | rfl | rfl | rfl | rfl <;> rfl
  obtain ⟨es, hsorted, hmem, hscan⟩ := scan_lists_map ⟨[.int], by decide⟩ mapped hkeyed range hvalid
  have hlisted : ∀ w ∈ mapped, range.admits w.1 = true →
      (lastWritten mapped w.1).all fun v =>
        (⟨w.1, v⟩ : Entry) ∈ [⟨.int (-2), [2]⟩, (⟨.int 5, [4]⟩ : Entry)] := by
    decide
  have hes : es = [⟨.int (-2), [2]⟩, ⟨.int 5, [4]⟩] := by
    refine Entry.eq_of_sorted hsorted (by decide) fun e => (hmem e.key e.value).trans ?_
    constructor
    · rintro ⟨hv, hadmits⟩
      obtain ⟨w, hw, hkey⟩ := exists_write_of_lastWritten hv
      rw [← hkey] at hv hadmits
      have hin := hlisted w hw hadmits
      rw [hv, hkey] at hin
      exact of_decide_eq_true hin
    · intro he
      simp only [List.mem_cons, List.not_mem_nil, or_false] at he
      rcases he with rfl | rfl <;> decide
  subst hes
  exact hscan { codec := Snappy.codec, capacity := 2 } {} [.lower, .upper] .backward _
    (fun side => by cases side <;> decide)
    (by decide) (by decide) nofun

end Session

end Keyspan
