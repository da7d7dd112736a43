import Keyspan.Proofs.Txn.Ledger

/-!
What reading a chain comes to, said by the log alone.

A chain is ordered by when it was written, not by when its writers committed. Yet reading it from the
newest update on ends at the reader's own latest one, or else at the latest whose writer had committed
in time: the reader's own updates all stand above those its snapshot sees. Only a foreign prepared
update on the way makes a difference.
-/

set_option autoImplicit false
set_option relaxedAutoImplicit false

namespace Keyspan

/-- What an update reads as, when it is the one that counts. -/
def Version.outcome (v : Version) : Outcome :=
  match v.value with
  | some b => .value b
  | none => .hidden

namespace Log

/-- Whether an update counts for a reader who began after `base`: one of its own where it made any,
and otherwise one whose writer had committed. -/
def counts (own : Option TxnId) (base : Log) (chain : List Version) (v : Version) : Bool :=
  if chain.any (fun u => some u.writer = own) then some v.writer = own
  else base.state? v.writer = some .committed

def settled (own : Option TxnId) (base : Log) (chain : List Version) : Outcome :=
  ((chain.find? (counts own base chain)).map Version.outcome).getD .hidden

/-- The updates that are newer than the latest one that counts, all of them if none does. -/
def newer (own : Option TxnId) (base : Log) (chain : List Version) : List Version :=
  chain.takeWhile fun v => !counts own base chain v

/-- What a key reads as through a transaction: its own latest update, or the latest whose writer had
committed before it began. Without a transaction, the latest whose writer has committed by now. -/
def view (order : KeyOrder) (own : Option TxnId) (log : Log) (key : Bytes) : Outcome :=
  match own with
  | some id => settled (some id) (before id log) (updates order key log)
  | none => settled none log (updates order key log)

variable {log : Log}

private theorem settled_ne_conflict (own : Option TxnId) (base : Log) (chain : List Version) :
    settled own base chain ≠ .conflict := by
  rw [settled]
  cases chain.find? (counts own base chain) with
  | none => exact nofun
  | some v =>
    rw [Option.map_some, Option.getD_some, Version.outcome]
    split <;> exact nofun

theorem updates_ne_nil_of_view {order : KeyOrder} {own : Option TxnId} {key v : Bytes}
    (h : view order own log key = .value v) : updates order key log ≠ [] := by
  intro hnil
  cases own <;> rw [view, hnil] at h <;> cases h

end Log

namespace Ledger

/-- The reader, who began after `base`, reads the snapshot of that time from a chain, unless it heeds
prepared transactions and a newer update of another one is in the way. -/
structure Reads (l : Ledger) (reader : Transaction) (log base : Log) (chain : List Version) :
    Prop where
  settled_or_conflict : l.resolve reader chain = Log.settled reader.id? base chain ∨
    l.resolve reader chain = .conflict
  conflict_iff : l.resolve reader chain = .conflict ↔ reader.ignorePrepare = false ∧
    ∃ v ∈ Log.newer reader.id? base chain,
      some v.writer ≠ reader.id? ∧ log.state? v.writer = some .prepared

theorem resolve_eq (l : Ledger) (reader : Transaction) (chain : List Version) :
    l.resolve reader chain =
      if reader.ignorePrepare = false ∧
          ∃ v ∈ chain.takeWhile (fun u : Version => !(l.classify u.writer reader == .visible)),
            l.classify v.writer reader = .foreignPrepared then .conflict
      else ((chain.find? fun v => l.classify v.writer reader == .visible).map
        Version.outcome).getD .hidden := by
  induction chain with
  | nil => simp [resolve]
  | cons v older ih =>
    rw [resolve]
    cases hc : l.classify v.writer reader with
    | visible =>
      rw [List.takeWhile_cons_of_neg (by simp [hc]), List.find?_cons_of_pos (by simp [hc])]
      simp only [List.not_mem_nil, false_and, exists_false, and_false, if_false, Option.map_some,
        Option.getD_some]
      rfl
    | invisible =>
      rw [List.takeWhile_cons_of_pos (by simp [hc]), List.find?_cons_of_neg (by simp [hc])]
      simpa [hc] using ih
    | foreignPrepared =>
      rw [List.takeWhile_cons_of_pos (by simp [hc]), List.find?_cons_of_neg (by simp [hc])]
      cases hi : reader.ignorePrepare with
      | true => simpa [hi] using ih
      | false => simp [hc]

private theorem first_congr {p q : Version → Bool} {front : List Version} (rest : List Version)
    (h : ∀ v ∈ front, p v = q v) (hrest : rest = [] ∨ ∃ v ∈ front, p v = true) :
    (front ++ rest).find? p = (front ++ rest).find? q ∧
      (front ++ rest).takeWhile (fun v => !p v) = (front ++ rest).takeWhile fun v => !q v := by
  induction front with
  | nil =>
    rcases hrest with rfl | ⟨v, hv, -⟩
    · exact ⟨rfl, rfl⟩
    · cases hv
  | cons v front ih =>
    have hv := h v List.mem_cons_self
    rw [List.cons_append]
    cases hp : p v with
    | true =>
      have hq : q v = true := by rw [← hv, hp]
      rw [List.find?_cons_of_pos hp, List.find?_cons_of_pos hq,
        List.takeWhile_cons_of_neg (by simp [hp]), List.takeWhile_cons_of_neg (by simp [hq])]
      exact ⟨rfl, rfl⟩
    | false =>
      have hq : q v = false := by rw [← hv, hp]
      have hrest' : rest = [] ∨ ∃ v ∈ front, p v = true := by
        refine hrest.imp_right ?_
        rintro ⟨u, hu, hpu⟩
        rcases List.mem_cons.1 hu with rfl | hu
        · rw [hp] at hpu
          cases hpu
        · exact ⟨u, hu, hpu⟩
      obtain ⟨hfind, htake⟩ := ih (fun u hu => h u (List.mem_cons_of_mem v hu)) hrest'
      rw [List.find?_cons_of_neg (by simp [hp]), List.find?_cons_of_neg (by simp [hq]),
        List.takeWhile_cons_of_pos (by simp [hp]), List.takeWhile_cons_of_pos (by simp [hq]), hfind,
        htake]
      exact ⟨rfl, rfl⟩

variable {l : Ledger} {log : Log}

private theorem Agrees.classify_eq_foreignPrepared (h : l.Agrees log) (reader : Transaction)
    (writer : TxnId) : l.classify writer reader = .foreignPrepared ↔
      some writer ≠ reader.id? ∧ log.state? writer = some .prepared := by
  rw [classify]
  split
  next hown => simp [hown]
  next hown =>
    have hown' : some writer ≠ reader.id? := fun he => hown he.symm
    constructor
    · intro hc
      split at hc
      next hst => exact ⟨hown', h.state?_eq hst nofun⟩
      next => split at hc <;> cases hc
      next => cases hc
    · rintro ⟨-, hst⟩
      rw [h.stateOf_eq hst]

theorem Agrees.classify_eq_visible (h : l.Agrees log) {since base : Log} (hv : log.Valid)
    (hlog : log = since ++ base) {reader : Transaction} (hsnap : reader.snapshot.Of base)
    {writer : TxnId} (hknown : (log.state? writer).isSome) :
    l.classify writer reader = .visible ↔
      some writer = reader.id? ∨ base.state? writer = some .committed := by
  subst hlog
  rw [classify]
  split
  next hown => simp [hown]
  next hown =>
    have hown' : ¬ some writer = reader.id? := fun he => hown he.symm
    have h0 : writer ≠ 0 := ((h.issued writer).1 hknown).1
    constructor
    · intro hc
      right
      split at hc
      next => cases hc
      next hst =>
        split at hc
        next hsees =>
          obtain ⟨st, hbase, hfin⟩ := (hsnap writer h0).1 hsees
          have hnow := Log.state?_append_of_finished hv hbase hfin
          rw [hbase, ← hnow]
          exact h.state?_eq hst nofun
        next => cases hc
      next => cases hc
    · rintro (he | hbase)
      · exact absurd he hown'
      · have hnow := Log.state?_append_of_finished hv hbase rfl
        rw [h.stateOf_eq hnow]
        dsimp only
        rw [if_pos ((hsnap writer h0).2 ⟨_, hbase, rfl⟩)]

private theorem Agrees.classify_of_mem (h : l.Agrees log) {since base : Log} (hv : log.Valid)
    (hlog : log = since ++ base) {reader : Transaction} (hsnap : reader.snapshot.Of base)
    {order : KeyOrder} {key : Bytes} {v : Version} (hmem : v ∈ log.updates order key) :
    (l.classify v.writer reader == .visible) =
      (decide (some v.writer = reader.id?) || decide (base.state? v.writer = some .committed)) := by
  have hknown := Log.isSome_state?_writer hv order key v hmem
  rw [Bool.eq_iff_iff, Bool.or_eq_true, decide_eq_true_eq, decide_eq_true_eq, beq_iff_eq]
  exact h.classify_eq_visible hv hlog hsnap hknown

/-- The first visible update is the first that counts, where the reader wrote itself: its updates
are later than `base`, and nobody committed by then wrote later. -/
private theorem Agrees.first_own (h : l.Agrees log) {since base : Log} (hv : log.Valid)
    (hlog : log = since ++ base) {reader : Transaction} (hsnap : reader.snapshot.Of base)
    (hown : ∀ id, reader.id? = some id → base.state? id = none) (order : KeyOrder) (key : Bytes) :
    let chain := log.updates order key
    chain.any (fun u => some u.writer = reader.id?) = true →
      chain.find? (fun v => l.classify v.writer reader == .visible) =
          chain.find? (Log.counts reader.id? base chain) ∧
        chain.takeWhile (fun v => !(l.classify v.writer reader == .visible)) =
          Log.newer reader.id? base chain := by
  intro chain hany
  have hcounts : ∀ v, Log.counts reader.id? base chain v =
      decide (some v.writer = reader.id?) := fun v => if_pos hany
  have hsplit : chain = since.updates order key ++ base.updates order key := by
    rw [← Log.updates_append, ← hlog]
  have hvalid : Log.Valid (since ++ base) := hlog ▸ hv
  have hlate : ∀ v ∈ base.updates order key, some v.writer ≠ reader.id? := by
    intro v hmem he
    have hknown := Log.isSome_state?_writer hvalid.right order key v hmem
    rw [hown v.writer he.symm] at hknown
    cases hknown
  have hfront : ∃ v ∈ since.updates order key,
      (l.classify v.writer reader == .visible) = true := by
    obtain ⟨v, hmem, he⟩ := List.any_eq_true.1 hany
    have he' : some v.writer = reader.id? := by simpa using he
    have hmem' := hmem
    rw [hsplit, List.mem_append] at hmem'
    refine ⟨v, hmem'.resolve_right fun hb => hlate v hb he', ?_⟩
    rw [h.classify_of_mem hv hlog hsnap hmem, he, Bool.true_or]
  have hagree : ∀ v ∈ since.updates order key,
      (l.classify v.writer reader == .visible) = Log.counts reader.id? base chain v := by
    intro v hmem
    have hchain : v ∈ chain := by
      rw [hsplit]
      exact List.mem_append_left _ hmem
    have hno : base.state? v.writer ≠ some .committed := fun he =>
      Log.writer_ne_of_finished hvalid ⟨_, he, rfl⟩ order key v hmem rfl
    rw [h.classify_of_mem hv hlog hsnap hchain, hcounts, decide_eq_false hno, Bool.or_false]
  have hcongr := first_congr (base.updates order key) hagree (Or.inr hfront)
  rw [← hsplit] at hcongr
  exact hcongr

theorem Agrees.first_visible (h : l.Agrees log) {since base : Log} (hv : log.Valid)
    (hlog : log = since ++ base) {reader : Transaction} (hsnap : reader.snapshot.Of base)
    (hown : ∀ id, reader.id? = some id → base.state? id = none) (order : KeyOrder) (key : Bytes) :
    let chain := log.updates order key
    chain.find? (fun v => l.classify v.writer reader == .visible) =
        chain.find? (Log.counts reader.id? base chain) ∧
      chain.takeWhile (fun v => !(l.classify v.writer reader == .visible)) =
        Log.newer reader.id? base chain := by
  intro chain
  by_cases hany : chain.any (fun u => some u.writer = reader.id?) = true
  · exact h.first_own hv hlog hsnap hown order key hany
  · have hcounts : ∀ v, Log.counts reader.id? base chain v =
        decide (base.state? v.writer = some .committed) := fun v => if_neg hany
    have hagree : ∀ v ∈ chain,
        (l.classify v.writer reader == .visible) = Log.counts reader.id? base chain v := by
      intro v hmem
      have hno : ¬ some v.writer = reader.id? := by
        intro he
        refine hany (List.any_eq_true.2 ⟨v, hmem, ?_⟩)
        simpa using he
      rw [h.classify_of_mem hv hlog hsnap hmem, hcounts, decide_eq_false hno, Bool.false_or]
    have hcongr := first_congr [] hagree (Or.inl rfl)
    rw [List.append_nil] at hcongr
    exact hcongr

/-- Reading a chain comes to what the log says. -/
theorem Agrees.reads (h : l.Agrees log) {since base : Log} (hv : log.Valid)
    (hlog : log = since ++ base) {reader : Transaction} (hsnap : reader.snapshot.Of base)
    (hown : ∀ id, reader.id? = some id → base.state? id = none) (order : KeyOrder) (key : Bytes) :
    l.Reads reader log base (log.updates order key) := by
  let chain := log.updates order key
  obtain ⟨hfind, htake⟩ := h.first_visible hv hlog hsnap hown order key
  have hresolve : l.resolve reader chain =
      if reader.ignorePrepare = false ∧ ∃ v ∈ Log.newer reader.id? base chain,
          some v.writer ≠ reader.id? ∧ log.state? v.writer = some .prepared then .conflict
      else Log.settled reader.id? base chain := by
    rw [resolve_eq, hfind, htake, Log.settled]
    simp only [h.classify_eq_foreignPrepared]
    rfl
  refine ⟨?_, ?_⟩
  · show l.resolve reader chain = _ ∨ l.resolve reader chain = _
    rw [hresolve]
    split
    · exact Or.inr rfl
    · exact Or.inl rfl
  · show l.resolve reader chain = _ ↔ _
    rw [hresolve]
    split
    next hc => exact ⟨fun _ => hc, fun _ => rfl⟩
    next hc => exact ⟨fun he => absurd he (Log.settled_ne_conflict _ _ _), fun he => absurd he hc⟩

end Ledger

end Keyspan
