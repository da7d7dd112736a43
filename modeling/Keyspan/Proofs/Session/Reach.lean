import Keyspan.Proofs.Compression.Literal
import Keyspan.Proofs.Session.Apart
import Keyspan.Proofs.Txn.Entrant

/-!
How far a write reaches.

An update comes on top of one chain and leaves all others alone. On its own it has committed when the
write returns, so that all who start from then on read it, and none who started before. In a
transaction it is read by that transaction and by nobody else.
-/

set_option autoImplicit false
set_option relaxedAutoImplicit false

namespace Keyspan

open Std

namespace Table

/-- What a packed key reads as: the record that a seek for the key finds, resolved for a reader. -/
def outcome (t : Table) (reader : Transaction) (packed : Bytes) : Except Error Outcome :=
  match (onStore (Store.seek (.exact packed))).run t with
  | .ok found t => .ok (t.ledger.resolve reader ((found.map Record.versions).getD []))
  | .error e _ => .error e

/-- What a packed key reads as to a reader that starts now. -/
def outcomeNew (t : Table) (e : Entrant) (packed : Bytes) : Except Error Outcome :=
  { t with ledger := (e.enter t.ledger).2 }.outcome (e.enter t.ledger).1 packed

end Table

theorem Log.updates_congr {order : KeyOrder} {x y : Bytes} (h : order.compare x y = .eq)
    (log : Log) : log.updates order x = log.updates order y := by
  have hsame : Event.update? order x = Event.update? order y := by
    funext e
    cases e with
    | wrote id k value => rw [Event.update?, Event.update?, TransCmp.congr_right h]
    | began id => rfl
    | moved id target => rfl
  rw [Log.updates, Log.updates, hsame]

theorem Log.updates_wrote (order : KeyOrder) (id : TxnId) (k key : Bytes) (value : Option Bytes)
    (log : Log) : Log.updates order key (.wrote id k value :: log) =
      if order.compare k key = .eq then ⟨id, value⟩ :: log.updates order key
      else log.updates order key := by
  rw [Log.updates, List.filterMap_cons, Event.update?]
  by_cases hk : order.compare k key = .eq
  · rw [if_pos hk, if_pos hk]
    rfl
  · rw [if_neg hk, if_neg hk]
    rfl

namespace Table.Follows

variable {t u : Table} {f : Format} {log : Log} {reader : Transaction} {packed : Bytes}

theorem outcome_eq (h : t.Follows f log) (reader : Transaction) (packed : Bytes) :
    t.outcome reader packed =
      .ok (t.ledger.resolve reader (log.updates (.typed f) packed)) := by
  obtain ⟨s, hrun, -, -⟩ := Store.seek_run h.store.valid (.exact packed)
  have honStore : (onStore (Store.seek (.exact packed))).run t =
      .ok (Flat.pick t.store.order t.store.records (.exact packed)) { t with store := s } := by
    show onStore (Store.seek (.exact packed)) t = _
    rw [onStore, hrun]
  rw [outcome, honStore, h.store.ordered]
  have hchain : ((Flat.pick (.typed f) t.store.records (.exact packed)).map
      Record.versions).getD [] = log.updates (.typed f) packed := by
    rw [Flat.pick]
    cases hfind : t.store.records.find? fun r =>
        decide ((KeyOrder.typed f).compare r.key packed = .eq) with
    | some r =>
      have heq : (KeyOrder.typed f).compare r.key packed = .eq := by
        simpa using List.find?_some hfind
      rw [← Log.updates_congr heq, ← h.versions_eq (List.mem_of_find?_eq_some hfind)]
      rfl
    | none =>
      rw [Log.updates_eq]
      refine (Flat.chain_eq_nil fun a ha heq => ?_).symm
      obtain ⟨r, hr, hra⟩ := (Flat.collects_ofAppends log.appends).complete a ha
      rw [← h.store.records] at hr
      have hne := List.find?_eq_none.1 hfind r hr
      exact hne (decide_eq_true (TransCmp.eq_trans hra heq))
  exact congrArg (fun chain => Except.ok (t.ledger.resolve reader chain)) hchain

private theorem outcomeNew_eq (h : t.Follows f log) (hroom : log.begun + 2 < 2 ^ 64) (e : Entrant)
    (packed : Bytes) : t.outcomeNew e packed =
      .ok ((e.enter t.ledger).2.resolve (e.enter t.ledger).1 (log.updates (.typed f) packed)) := by
  rw [outcomeNew]
  cases e with
  | implicit => exact h.outcome_eq _ packed
  | begin ignorePrepare => exact (h.begin hroom ignorePrepare).outcome_eq _ packed

theorem write_fails (h : t.Follows f log) (hroom : log.begun + 2 < 2 ^ 64)
    (writer : Option Transaction) (key : Key) (value : Option Bytes) :
    ((∃ e u, (Table.write writer key value).run t = .error e u) ↔ t.Refuses writer key) ∧
      ∀ e u, (Table.write writer key value).run t = .error e u → u = t := by
  rcases h.write_cases hroom writer key value with ⟨⟨e, hrun⟩, hno⟩ | ⟨hyes, -, st, l, hok, -⟩
  · rw [hrun]
    exact ⟨⟨fun _ => hno, fun _ => ⟨e, t, rfl⟩⟩, fun _ _ he => (EStateM.Result.error.inj he).2.symm⟩
  · have hdone : ∀ e u, (Table.write writer key value).run t ≠ .error e u := by
      intro e u he
      cases hok.symm.trans he
    exact ⟨⟨fun ⟨e, u, he⟩ => absurd he (hdone e u), fun hno => absurd hno hyes⟩,
      fun e u he => absurd he (hdone e u)⟩

end Table.Follows

/-- A number that is handed out after a transaction was opened is not its own, and its snapshot does not
see it. -/
theorem Transaction.Opened.late {txn : Transaction} {log : Log} (h : txn.Opened log) {id : TxnId}
    (h0 : id ≠ 0) (hnew : log.state? id = none) :
    txn.id? ≠ some id ∧ txn.snapshot.sees id = false := by
  have hunseen : ∀ base since : Log, log = since ++ base → txn.snapshot.Of base →
      txn.snapshot.sees id = false := by
    rintro base since rfl hsnap
    have hbase := Log.state?_of_append_eq_none hnew
    rw [← Bool.not_eq_true]
    intro hsees
    obtain ⟨st, hst, -⟩ := (hsnap id h0).1 hsees
    rw [hbase] at hst
    cases hst
  rw [Transaction.Opened] at h
  cases hid : txn.id? with
  | none =>
    rw [hid] at h
    obtain ⟨since, base, hlog, hsnap⟩ := h
    refine ⟨fun he => ?_, hunseen base since hlog hsnap⟩
    cases he
  | some own =>
    rw [hid] at h
    obtain ⟨hknown, hsnap⟩ := h
    obtain ⟨since, hlog⟩ := log.before_suffix own
    refine ⟨fun he => ?_, hunseen _ since hlog hsnap⟩
    obtain rfl := Option.some.inj he
    rw [hnew] at hknown
    cases hknown

theorem Ledger.Agrees.tracked_enter {l : Ledger} {log : Log} (h : l.Agrees log) :
    ((l.begin false).2.enter l.nextId .committed).tracked = l.tracked := by
  have hlook : l.running.lookup l.nextId = none := by
    cases hlook : l.running.lookup l.nextId with
    | none => rfl
    | some ph =>
      have hst := (h.running _ ph).1 hlook
      rw [h.state?_nextId] at hst
      cases hst
  have hkept : ((l.nextId, Phase.active) :: l.running).filter (·.1 ≠ l.nextId) = l.running := by
    rw [List.filter_cons_of_neg (by simp), List.filter_eq_self]
    intro p hp
    have hne := List.lookup_eq_none_iff.1 hlook p hp
    exact decide_eq_true fun he => bne_iff_ne.1 hne he.symm
  exact congrArg (·.length + l.aborted.length) hkept

namespace Session

variable {s : Session} {f : Format} {log : Log} {key : Key} {value : Option Bytes} {u : Table}

/-- What a write on its own does to the readers there are and to those that start later. -/
structure Published (s : Session) (u : Table) (key : Key) (value : Option Bytes) : Prop where
  nextId : u.ledger.nextId = s.table.ledger.nextId + 1
  tracked : u.ledger.tracked = s.table.ledger.tracked
  fresh : ∀ e, u.outcomeNew e key.encode = .ok (value.elim .hidden .value)
  others : ∀ e k, k ≠ key → s.table.format.check k = .ok () → k.encode.length < 2 ^ 64 →
    u.outcomeNew e k.encode = s.table.outcomeNew e k.encode
  opened : ∀ r ∈ s.txns, ∀ packed, u.outcome r packed = s.table.outcome r packed

/-- What a write in a transaction does to that, to the other readers there are and to those that start
later. -/
structure Drafted (s : Session) (i : Nat) (u : Table) (key : Key) (value : Option Bytes) : Prop where
  ledger : u.ledger = s.table.ledger
  own : ∀ txn, s.txns[i]? = some txn →
    u.outcome txn key.encode = .ok (value.elim .hidden .value) ∧
      ∀ k, k ≠ key → s.table.format.check k = .ok () → k.encode.length < 2 ^ 64 →
        u.outcome txn k.encode = s.table.outcome txn k.encode
  opened : ∀ j r, j ≠ i → s.txns[j]? = some r → ∀ packed,
    u.outcome r packed = s.table.outcome r packed
  fresh : ∀ e packed, u.outcomeNew e packed = s.table.outcomeNew e packed

theorem compare_ne (hkey : f.check key = .ok ()) (hsize : key.encode.length < 2 ^ 64) {k : Key}
    (hk : f.check k = .ok ()) (hksize : k.encode.length < 2 ^ 64) (hne : k ≠ key) :
    (KeyOrder.typed f).compare key.encode k.encode ≠ .eq := by
  rw [Format.compare_encode hkey hk hsize hksize]
  exact fun heq => hne (Format.eq_of_compare hkey hk heq).symm

private theorem Follows.published (h : s.Follows f log) (hroom : log.begun + 3 < 2 ^ 64)
    (hsize : key.encode.length < 2 ^ 64)
    (hrun : (Table.write none key value).run s.table = .ok () u) :
    s.Published u key value := by
  rcases h.table.write_cases (by omega) none key value with
    ⟨⟨e, herror⟩, -⟩ | ⟨-, hkey, st, l, hok, hu, rfl⟩
  · rw [herror] at hrun
    cases hrun
  rw [hok] at hrun
  obtain rfl := (EStateM.Result.ok.inj hrun).2
  let n := s.table.ledger.nextId
  have hledger := h.table.ledger
  have hnew : log.state? n = none := hledger.state?_nextId
  have hupdates : ∀ b, Log.updates (.typed f) b (Event.ofWrite none n key value ++ log) =
      Log.updates (.typed f) b (.wrote n key.encode value :: log) := fun _ => rfl
  have hstate : ∀ v : Version, (log.state? v.writer).isSome →
      Log.state? (Event.ofWrite none n key value ++ log) v.writer = log.state? v.writer := by
    intro v hv
    refine Log.state?_ofWrite_of_ne (fun he => ?_) key.encode value
    rw [he, hnew] at hv
    cases hv
  have hknown := fun b => Log.isSome_state?_writer h.table.valid (.typed f) b
  have hcommitted : Log.state? (Event.ofWrite none n key value ++ log) n = some .committed :=
    if_pos rfl
  have hbegun : Log.begun (Event.ofWrite none n key value ++ log) + 2 < 2 ^ 64 := hroom
  refine ⟨rfl, hledger.tracked_enter, fun e => ?_, fun e k hne hk hksize => ?_,
    fun r hr packed => ?_⟩
  · rw [hu.outcomeNew_eq hbegun, hupdates, Log.updates_wrote, if_pos ReflCmp.compare_self,
      Ledger.resolve_cons_of_visible (hu.ledger.classify_enter hbegun e hcommitted)]
    cases value <;> rfl
  · have hne := compare_ne hkey hsize (h.table.format ▸ hk) hksize hne
    rw [hu.outcomeNew_eq hbegun, h.table.outcomeNew_eq (by omega), hupdates, Log.updates_wrote,
      if_neg hne]
    refine congrArg Except.ok ?_
    exact hledger.resolve_enter_congr hu.ledger (by omega) hbegun e fun v hv =>
      ⟨hknown _ v hv, hstate v (hknown _ v hv)⟩
  · obtain ⟨hother, hunseen⟩ := (h.opened r hr).late hledger.nextId_ne_zero hnew
    have hold := fun v hv =>
      hledger.classify_same hu.ledger (hknown packed v hv) (hstate v (hknown packed v hv)) r
    rw [hu.outcome_eq, h.table.outcome_eq, hupdates, Log.updates_wrote]
    refine congrArg Except.ok ?_
    split
    · rw [Ledger.resolve_cons_of_invisible
        (Ledger.classify_unseen hother (hu.ledger.stateOf_eq hcommitted) hunseen)]
      exact Ledger.resolve_congr rfl hold
    · exact Ledger.resolve_congr rfl hold

private theorem Follows.drafted (h : s.Follows f log) (hroom : log.begun + 2 < 2 ^ 64)
    (hsize : key.encode.length < 2 ^ 64) {i : Nat} {txn : Transaction} (htxn : s.txns[i]? = some txn)
    (hrun : (Table.write (some txn) key value).run s.table = .ok () u) :
    s.Drafted i u key value := by
  rcases h.table.write_cases hroom (some txn) key value with
    ⟨⟨e, herror⟩, -⟩ | ⟨-, hkey, st, l, hok, hu, rfl, hactive, hid⟩
  · rw [herror] at hrun
    cases hrun
  rw [hok] at hrun
  obtain rfl := (EStateM.Result.ok.inj hrun).2
  have hledger := h.table.ledger
  have hupdates : ∀ b, Log.updates (.typed f) b
      (Event.ofWrite (some txn) s.table.ledger.nextId key value ++ log) = _ :=
    fun b => Log.updates_wrote (.typed f) txn.id key.encode b value log
  have hstateOf := hledger.stateOf_eq hactive
  refine ⟨rfl, fun t ht => ⟨?_, fun k hne hk hksize => ?_⟩, fun j r hj hr packed => ?_,
    fun e packed => ?_⟩
  · obtain rfl := Option.some.inj (htxn.symm.trans ht)
    rw [hu.outcome_eq, hupdates, if_pos ReflCmp.compare_self,
      Ledger.resolve_cons_of_visible (Ledger.classify_own hid)]
    cases value <;> rfl
  · have hne := compare_ne hkey hsize (h.table.format ▸ hk) hksize hne
    rw [hu.outcome_eq, h.table.outcome_eq, hupdates, if_neg hne]
  · have hother : r.id? ≠ some txn.id := fun hsame => h.id_ne hr hsame hj.symm htxn rfl
    rw [hu.outcome_eq, h.table.outcome_eq, hupdates]
    refine congrArg Except.ok ?_
    split
    · exact Ledger.resolve_cons_of_invisible (Ledger.classify_active hother hstateOf)
    · rfl
  · rw [hu.outcomeNew_eq hroom, h.table.outcomeNew_eq hroom, hupdates]
    refine congrArg Except.ok ?_
    split
    · exact Ledger.resolve_cons_of_invisible (hledger.classify_enter hroom e hactive)
    · rfl

/-- A write fails exactly where it is refused, and a write that fails changes nothing at all. One that
succeeds on its own takes one number and leaves nothing else to be tracked: the key then reads as what was
written to all who start from now on, whatever else is in its chain, no other key reads differently to
them, and none at all to a transaction that was opened before. One that succeeds in a transaction is read
there and changes no other key there, and no key for any other transaction or for those who start from
now on. -/
theorem write_reaches (f : Format) (paging : Paging) (past : List Call)
    (through : ∀ call ∈ past, call.isRaw = false) (key : Key) (value : Option Bytes)
    (room : Call.footprints past + key.encode.length + 64 < 2 ^ 64) :
    let s := (fresh f paging).after past
    (∀ writer, ((∃ e u, (Table.write writer key value).run s.table = .error e u) ↔
        s.table.Refuses writer key) ∧
      ∀ e u, (Table.write writer key value).run s.table = .error e u → u = s.table) ∧
    (∀ u, (Table.write none key value).run s.table = .ok () u → s.Published u key value) ∧
    (∀ i txn u, s.txns[i]? = some txn →
      (Table.write (some txn) key value).run s.table = .ok () u → s.Drafted i u key value) ∧
    ∀ reader packed, ∃ o, s.table.outcome reader packed = .ok o := by
  intro s
  have hweight := weight_log_le (fresh f paging) [] past
  have hempty : Log.weight [] = 0 := rfl
  have h : s.Follows f _ := (follows_fresh f paging).after through (by omega)
  have hbegun := Log.begun_le ((fresh f paging).log past ++ [])
  refine ⟨fun writer => ?_, fun u hrun => ?_, fun i txn u htxn hrun => ?_, fun reader packed => ?_⟩
  · exact h.table.write_fails (by omega) writer key value
  · exact h.published (by omega) (by omega) hrun
  · exact h.drafted (by omega) (by omega) htxn hrun
  · exact ⟨_, h.table.outcome_eq reader packed⟩

/-- A key with an aborted update, a committed one and on top of them one that is prepared. -/
def unsettled : List Call :=
  [.txn (.begin false), .txn (.begin false), .insert none (.int 7) [1], .insert (some 0) (.int 7) [2],
    .txn (.move 0 .aborted), .insert (some 1) (.int 7) [3], .txn (.move 1 .prepared), .store .evictAll]

theorem write_reaches_unsettled :
    let s := (fresh ⟨[.int], by decide⟩ { codec := Snappy.codec }).after unsettled
    s.table.outcomeNew .implicit (Key.encode (.int 7)) = .ok .conflict ∧
      ∃ u, (Table.write none (.int 7) (some [9])).run s.table = .ok () u ∧
        u.outcomeNew .implicit (Key.encode (.int 7)) = .ok (.value [9]) ∧
        ∀ r ∈ s.txns, u.outcome r (Key.encode (.int 7)) = s.table.outcome r (Key.encode (.int 7)) := by
  intro s
  obtain ⟨hfails, hpublished, -⟩ :=
    write_reaches ⟨[.int], by decide⟩ { codec := Snappy.codec } unsettled (by decide) (.int 7)
      (some [9]) (by decide)
  refine ⟨by decide +kernel, ?_⟩
  cases hrun : (Table.write none (.int 7) (some [9])).run s.table with
  | ok x u =>
    have h := hpublished u hrun
    exact ⟨u, rfl, h.fresh .implicit, fun r hr => h.opened r hr _⟩
  | error e u =>
    have hno : s.table.Refuses none (.int 7) := ((hfails none).1).1 ⟨e, u, hrun⟩
    rcases hno with hno | ⟨txn, hno, -⟩
    · exact absurd (by decide +kernel) hno
    · cases hno

end Session

end Keyspan
