import Keyspan.Proofs.Txn.Visibility

/-!
Readers that start now, and updates that come later than a reader.

How an update looks to a reader who starts now depends on the state of its writer alone. To a reader who
started before, the updates of a transaction that began since are not there. Either way a chain reads the
same as long as each of its updates looks the same.
-/

set_option autoImplicit false
set_option relaxedAutoImplicit false

namespace Keyspan

/-- A reader that starts now: one of everything committed so far, or a transaction that begins. -/
inductive Entrant
  | implicit
  | begin (ignorePrepare : Bool)
  deriving DecidableEq, Repr

def Entrant.enter (e : Entrant) (l : Ledger) : Transaction × Ledger :=
  match e with
  | implicit => (l.implicit, l)
  | begin ignorePrepare => l.begin ignorePrepare

def TxnState.toEntrant : TxnState → Visibility
  | active => .invisible
  | prepared => .foreignPrepared
  | committed => .visible
  | aborted => .invisible

/-- The events in which a transaction began, wrote one update and committed change the state of no other
transaction. -/
theorem Log.state?_ofWrite_of_ne {log : Log} {id next : TxnId} (h : id ≠ next) (key : Bytes)
    (value : Option Bytes) :
    Log.state? (.moved next .committed :: .wrote next key value :: .began next :: log) id =
      log.state? id := by
  have hne : ¬ next = id := fun he => h he.symm
  rw [Log.state?, if_neg hne, Log.state?, Log.state?, if_neg hne]

theorem Log.state?_of_append_eq_none {more log : Log} {id : TxnId}
    (h : Log.state? (more ++ log) id = none) : log.state? id = none := by
  cases hs : log.state? id with
  | none => rfl
  | some st =>
    have hsome : (log.state? id).isSome := by rw [hs]; rfl
    have hmore := Log.isSome_state?_append hsome more
    rw [h] at hmore
    cases hmore

theorem Log.before_suffix (log : Log) (id : TxnId) : ∃ since, log = since ++ log.before id := by
  induction log with
  | nil => exact ⟨[], rfl⟩
  | cons e log ih =>
    rw [Log.before]
    split
    · exact ⟨[e], rfl⟩
    · obtain ⟨since, hlog⟩ := ih
      exact ⟨e :: since, congrArg (e :: ·) hlog⟩

namespace Ledger

variable {l m : Ledger} {log : Log} {r q : Transaction} {v : Version} {older chain : List Version}

theorem resolve_congr (hignore : q.ignorePrepare = r.ignorePrepare)
    (h : ∀ v ∈ chain, m.classify v.writer q = l.classify v.writer r) :
    m.resolve q chain = l.resolve r chain := by
  induction chain with
  | nil => rfl
  | cons v older ih =>
    have hrest := ih fun u hu => h u (List.mem_cons_of_mem v hu)
    rw [resolve, resolve, h v List.mem_cons_self, hignore, hrest]

theorem resolve_cons_of_visible (h : l.classify v.writer r = .visible) :
    l.resolve r (v :: older) = v.outcome := by
  rw [resolve, h]
  rfl

theorem resolve_cons_of_invisible (h : l.classify v.writer r = .invisible) :
    l.resolve r (v :: older) = l.resolve r older := by
  rw [resolve, h]

private theorem classify_congr {writer : TxnId} (h : m.stateOf writer = l.stateOf writer) :
    m.classify writer r = l.classify writer r := by
  rw [classify, classify, h]

theorem classify_own {writer : TxnId} (h : r.id? = some writer) :
    l.classify writer r = .visible := by
  rw [classify, if_pos h]

theorem classify_active {writer : TxnId} (hne : r.id? ≠ some writer)
    (hactive : l.stateOf writer = .active) : l.classify writer r = .invisible := by
  rw [classify, if_neg hne, hactive]

theorem classify_unseen {writer : TxnId} (hne : r.id? ≠ some writer)
    (hcommitted : l.stateOf writer = .committed) (hunseen : r.snapshot.sees writer = false) :
    l.classify writer r = .invisible := by
  rw [classify, if_neg hne, hcommitted, hunseen]
  rfl

theorem Agrees.classify_same {log' : Log} (h : l.Agrees log) (h' : m.Agrees log') {writer : TxnId}
    (hknown : (log.state? writer).isSome) (hsame : log'.state? writer = log.state? writer)
    (r : Transaction) : m.classify writer r = l.classify writer r := by
  obtain ⟨st, hst⟩ := Option.isSome_iff_exists.1 hknown
  exact classify_congr ((h'.stateOf_eq (hsame.trans hst)).trans (h.stateOf_eq hst).symm)

theorem Agrees.stateOf_begin (h : l.Agrees log) (hroom : log.begun + 2 < 2 ^ 64)
    (ignorePrepare : Bool) {writer : TxnId} {st : TxnState} (hst : log.state? writer = some st) :
    (l.begin ignorePrepare).2.stateOf writer = st := by
  refine (h.begin hroom ignorePrepare).stateOf_eq ?_
  have hne : ¬ l.nextId = writer := by
    rintro rfl
    rw [h.state?_nextId] at hst
    cases hst
  rw [Log.state?, if_neg hne]
  exact hst

/-- How an update looks to a reader that starts now is decided by the state of its writer. -/
theorem Agrees.classify_enter (h : l.Agrees log) (hroom : log.begun + 2 < 2 ^ 64) (e : Entrant)
    {writer : TxnId} {st : TxnState} (hst : log.state? writer = some st) :
    (e.enter l).2.classify writer (e.enter l).1 = st.toEntrant := by
  have hissued := (h.issued writer).1 (by rw [hst]; rfl)
  have hstate : (e.enter l).2.stateOf writer = st := by
    cases e with
    | implicit => exact h.stateOf_eq hst
    | begin ignorePrepare => exact h.stateOf_begin hroom ignorePrepare hst
  have hsnap : (e.enter l).1.snapshot = l.snapshot := by
    cases e <;> rfl
  have hne : (e.enter l).1.id? ≠ some writer := by
    cases e with
    | implicit => exact nofun
    | begin ignorePrepare =>
      intro he
      obtain rfl : l.nextId = writer := Option.some.inj he
      exact UInt64.lt_irrefl _ hissued.2
  rw [classify, if_neg hne, hstate, hsnap]
  cases st with
  | committed => exact if_pos ((h.snapshot writer hissued.1).2 ⟨_, hst, rfl⟩)
  | _ => rfl

theorem Agrees.resolve_enter_congr {log' : Log} (h : l.Agrees log) (h' : m.Agrees log')
    (hroom : log.begun + 2 < 2 ^ 64) (hroom' : log'.begun + 2 < 2 ^ 64) (e : Entrant)
    (hchain : ∀ v ∈ chain, (log.state? v.writer).isSome ∧
      log'.state? v.writer = log.state? v.writer) :
    (e.enter m).2.resolve (e.enter m).1 chain = (e.enter l).2.resolve (e.enter l).1 chain := by
  refine resolve_congr (by cases e <;> rfl) fun v hv => ?_
  obtain ⟨hknown, hsame⟩ := hchain v hv
  obtain ⟨st, hst⟩ := Option.isSome_iff_exists.1 hknown
  rw [h.classify_enter hroom e hst, h'.classify_enter hroom' e (hsame.trans hst)]

end Ledger

end Keyspan
