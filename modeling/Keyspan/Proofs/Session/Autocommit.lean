import Keyspan.Proofs.Key.Typed
import Keyspan.Proofs.Session.Run

set_option autoImplicit false
set_option relaxedAutoImplicit false

namespace Keyspan

open Std

/-- What a key maps to after some writes, oldest first. A write without a value is a removal. -/
def lastWritten (writes : List (Key × Option Bytes)) (key : Key) : Option Bytes :=
  writes.foldl (fun held w => if w.1 = key then w.2 else held) none

private theorem lastWritten_append (writes : List (Key × Option Bytes)) (w : Key × Option Bytes)
    (key : Key) :
    lastWritten (writes ++ [w]) key = if w.1 = key then w.2 else lastWritten writes key := by
  rw [lastWritten, List.foldl_append]
  rfl

theorem exists_write_of_lastWritten {writes : List (Key × Option Bytes)} {key : Key} {v : Bytes}
    (h : lastWritten writes key = some v) : ∃ w ∈ writes, w.1 = key := by
  refine Decidable.byContradiction fun hno => ?_
  have hkept : ∀ (held : Option Bytes) (ws : List (Key × Option Bytes)), (∀ w ∈ ws, w ∈ writes) →
      ws.foldl (fun held w => if w.1 = key then w.2 else held) held = held := by
    intro held ws
    induction ws with
    | nil => exact fun _ => rfl
    | cons w ws ih =>
      intro hws
      rw [List.foldl_cons, if_neg fun he => hno ⟨w, hws w List.mem_cons_self, he⟩]
      exact ih fun u hu => hws u (List.mem_cons_of_mem w hu)
  rw [lastWritten, hkept none writes fun _ hw => hw] at h
  cases h

def Call.ofWrite (w : Key × Option Bytes) : Call :=
  match w.2 with
  | some value => .insert none w.1 value
  | none => .remove none w.1

theorem Call.length_key_le_ofWrite (w : Key × Option Bytes) :
    w.1.encode.length ≤ (ofWrite w).footprint := by
  obtain ⟨key, value⟩ := w
  cases value with
  | some value =>
    show key.encode.length ≤ 64 + key.encode.length + value.length
    omega
  | none =>
    show key.encode.length ≤ 64 + key.encode.length
    omega

def Call.isEviction : Call → Bool
  | store (.evictPage _) => true
  | store .evictAll => true
  | store (.evictPicked _ _) => true
  | store (.evictContaining _) => true
  | store (.release _) => true
  | store (.serve _) => true
  | _ => false

namespace Log

variable {log : Log} {f : Format} {writes : List (Key × Option Bytes)} {key : Key}

/-- Every transaction has committed, and the newest update of a key is what was last written to it. -/
structure Autocommits (log : Log) (f : Format) (writes : List (Key × Option Bytes)) : Prop where
  committed : ∀ id st, log.state? id = some st → st = .committed
  newest : ∀ key, f.check key = .ok () → key.encode.length < 2 ^ 64 →
    (log.updates (.typed f) key.encode).head?.bind Version.value = lastWritten writes key

theorem autocommits_nil (f : Format) : Autocommits [] f [] where
  committed := nofun
  newest _ _ _ := rfl

/-- A key reads as what was last written to it. -/
theorem Autocommits.view_eq_value_iff (h : log.Autocommits f writes) (hv : log.Valid)
    (hkey : f.check key = .ok ()) (hsize : key.encode.length < 2 ^ 64) {v : Bytes} :
    log.view (.typed f) none key.encode = .value v ↔ lastWritten writes key = some v := by
  rw [← h.newest key hkey hsize]
  show settled none log (log.updates (.typed f) key.encode) = .value v ↔ _
  have hcommitted : ∀ u ∈ log.updates (.typed f) key.encode,
      log.state? u.writer = some .committed := by
    intro u hu
    obtain ⟨st, hst⟩ := Option.isSome_iff_exists.1 (isSome_state?_writer hv _ _ u hu)
    rw [hst, h.committed _ _ hst]
  revert hcommitted
  cases log.updates (.typed f) key.encode with
  | nil =>
    intro _
    constructor
    · intro h
      cases h
    · intro h
      cases h
  | cons u older =>
    intro hcommitted
    have hcounts : counts none log (u :: older) u = true := by
      rw [counts, if_neg (by simp), hcommitted u List.mem_cons_self]
      rfl
    rw [settled, List.find?_cons_of_pos hcounts, Option.map_some, Option.getD_some, Version.outcome,
      List.head?_cons, Option.bind_some]
    cases u.value with
    | some b =>
      constructor
      · exact fun hb => congrArg some (Outcome.value.inj hb)
      · exact fun hb => congrArg Outcome.value (Option.some.inj hb)
    | none =>
      constructor
      · intro h
        cases h
      · intro h
        cases h

private theorem Autocommits.write (h : log.Autocommits f writes) {id : TxnId} {w : Key × Option Bytes}
    (hw : f.check w.1 = .ok ()) (hwsize : w.1.encode.length < 2 ^ 64) :
    (Event.ofWrite none id w.1 w.2 ++ log).Autocommits f (writes ++ [w]) where
  committed i st hst := by
    have hstate : (if id = i then some TxnState.committed else
        if id = i then some .active else log.state? i) = some st := hst
    split at hstate
    next => exact (Option.some.inj hstate).symm
    next => exact h.committed i st hstate
  newest key hkey hsize := by
    have hupdates : (Event.ofWrite none id w.1 w.2 ++ log).updates (.typed f) key.encode =
        (if (KeyOrder.typed f).compare w.1.encode key.encode = .eq then [⟨id, w.2⟩] else []) ++
          log.updates (.typed f) key.encode := by
      rw [updates_append]
      congr 1
      simp only [updates, Event.ofWrite, List.filterMap_cons, Event.update?, List.filterMap_nil]
      split <;> simp_all
    rw [hupdates, Format.compare_encode hw hkey hwsize hsize, lastWritten_append]
    by_cases he : w.1 = key
    · rw [if_pos he, he, if_pos ReflCmp.compare_self]
      rfl
    · rw [if_neg he, if_neg fun hc => he (Format.eq_of_compare hw hkey hc), List.nil_append]
      exact h.newest key hkey hsize

end Log

namespace Session

variable {s : Session} {f : Format} {log : Log}

theorem Follows.write_alone (h : s.Follows f log) (hroom : log.begun + 2 < 2 ^ 64) {key : Key}
    (hkey : f.check key = .ok ()) (value : Option Bytes) :
    (s.write none key value).1 = .done ∧ (s.write none key value).2.cursors = s.cursors := by
  have htxn : s.txn? none = some none := rfl
  rcases h.table.write_cases hroom none key value with ⟨-, hno⟩ | ⟨-, -, t, l, hrun, -⟩
  · rcases hno with hno | ⟨txn, hno, -⟩
    · exact absurd (h.table.format.symm ▸ hkey) hno
    · cases hno
  · rw [Session.write, htxn]
    simp only [hrun]
    exact ⟨trivial, trivial⟩

private theorem Follows.run_ofWrite (h : s.Follows f log) (hroom : log.begun + 2 < 2 ^ 64)
    {w : Key × Option Bytes} (hkey : f.check w.1 = .ok ()) :
    s.events (.ofWrite w) = Event.ofWrite none s.table.ledger.nextId w.1 w.2 ∧
      (s.run (.ofWrite w)).2.cursors = s.cursors := by
  obtain ⟨key, value⟩ := w
  obtain ⟨hdone, hcursors⟩ := h.write_alone hroom hkey value
  cases value with
  | some value =>
    have hreply : (s.run (.insert none key value)).1 = .done := hdone
    refine ⟨?_, hcursors⟩
    show s.events (.insert none key value) = _
    unfold events
    rw [hreply]
    rfl
  | none =>
    have hreply : (s.run (.remove none key)).1 = .done := hdone
    refine ⟨?_, hcursors⟩
    show s.events (.remove none key) = _
    unfold events
    rw [hreply]
    rfl

theorem run_eviction {call : Call} (h : call.isEviction = true) (s : Session) :
    s.events call = [] ∧ (s.run call).2.cursors = s.cursors ∧ call.isRaw = false := by
  cases call with
  | store call =>
    refine ⟨rfl, rfl, ?_⟩
    cases call with
    | append key v => cases h
    | _ => rfl
  | _ => cases h

/-- Writes on their own, with evictions anywhere between them. -/
theorem Follows.autocommits {writes done : List (Key × Option Bytes)} {calls : List Call}
    (h : s.Follows f log) (hauto : log.Autocommits f done)
    (hcalls : calls.filter (fun call => !call.isEviction) = writes.map Call.ofWrite)
    (hkeys : ∀ w ∈ writes, f.check w.1 = .ok ())
    (hroom : log.weight + Call.footprints calls < 2 ^ 64) :
    (s.after calls).Follows f (s.log calls ++ log) ∧
      (s.log calls ++ log).Autocommits f (done ++ writes) ∧
        (s.after calls).cursors = s.cursors := by
  induction calls generalizing s log writes done with
  | nil =>
    obtain rfl := List.map_eq_nil_iff.1 hcalls.symm
    rw [List.append_nil]
    exact ⟨h, hauto, rfl⟩
  | cons call calls ih =>
    have hnext := weight_next_le s log call calls
    have hge := call.footprint_ge
    have hbegun := log.begun_le
    rw [Call.footprints_cons] at hroom hnext
    show ((s.run call).2.after calls).Follows f ((s.run call).2.log calls ++ s.events call ++ log) ∧
      ((s.run call).2.log calls ++ s.events call ++ log).Autocommits f (done ++ writes) ∧
        ((s.run call).2.after calls).cursors = s.cursors
    rw [List.append_assoc]
    by_cases hcall : call.isEviction = true
    · obtain ⟨hevents, hcursors, hraw⟩ := run_eviction hcall s
      have hstep := h.run hraw (by omega)
      rw [List.filter_cons_of_neg (by simp [hcall])] at hcalls
      rw [hevents] at hstep hnext ⊢
      obtain ⟨hrest, hall, hsame⟩ := ih hstep hauto hcalls hkeys (by omega)
      exact ⟨hrest, hall, hsame.trans hcursors⟩
    · rw [List.filter_cons_of_pos (by simp [hcall])] at hcalls
      obtain ⟨w, writes, rfl, rfl, htail⟩ := List.map_eq_cons_iff.1 hcalls.symm
      have hw := hkeys w List.mem_cons_self
      obtain ⟨hevents, hcursors⟩ := h.run_ofWrite (by omega) hw
      have hraw : (Call.ofWrite w).isRaw = false := by
        obtain ⟨key, value⟩ := w
        cases value <;> rfl
      have hsize := Call.length_key_le_ofWrite w
      have hstep := h.run hraw (by omega)
      rw [hevents] at hstep hnext ⊢
      have hauto' : Log.Autocommits (Event.ofWrite none s.table.ledger.nextId w.1 w.2 ++ log) f
          (done ++ [w]) := hauto.write hw (by omega)
      obtain ⟨hrest, hall, hsame⟩ := ih hstep hauto' htail.symm
        (fun u hu => hkeys u (List.mem_cons_of_mem w hu)) (by omega)
      rw [List.append_assoc] at hall
      exact ⟨hrest, hall, hsame.trans hcursors⟩

end Session

end Keyspan
