import Keyspan.Proofs.Cursor.Amend
import Keyspan.Proofs.Cursor.Finds
import Keyspan.Proofs.Session.Peers
import Keyspan.Proofs.Session.Sound

set_option autoImplicit false
set_option relaxedAutoImplicit false

namespace Keyspan

theorem Scan.keeps_staged : Entire fun _ call => Keeps (fun s : Scan => s.cursor.staged) call where
  toCompositional := Keeps.compositional _
  throw := .throw
  count _ _ := rfl
  seek m s := congrArg (·.1.staged) (keeps_onStore (Store.seek m) s)
  place _ _ := rfl
  release key s := congrArg (·.1.staged) (keeps_onStore (Store.release key) s)

theorem CursorCall.staged_run (call : CursorCall) (s : Scan) {packed : Bytes}
    (h : (call.run s).2.cursor.staged = some packed) :
    s.cursor.staged = some packed ∨ ∃ key, s.table.format.packKey key = .ok packed := by
  cases hcall : call.isBounding with
  | true =>
    obtain ⟨r, hr⟩ := exists_amendment hcall s
    rw [run_of_amendment? hr] at h
    rcases r with e | (key | bounds)
    · exact Or.inl h
    · obtain ⟨k, rfl⟩ := exists_setKey_of_stage hr
      rw [amendment?] at hr
      cases hpack : s.table.format.packKey k with
      | error e =>
        rw [hpack] at hr
        cases hr
      | ok b =>
        rw [hpack] at hr
        cases hr
        cases h
        exact Or.inr ⟨k, hpack⟩
    · exact Or.inl h
  | false =>
    cases call with
    | next => exact Or.inl ((keeps_answer (Scan.keeps_staged.step .forward) s).symm.trans h)
    | prev => exact Or.inl ((keeps_answer (Scan.keeps_staged.step .backward) s).symm.trans h)
    | search => exact Or.inl ((keeps_answer Scan.keeps_staged.search s).symm.trans h)
    | searchNear => exact Or.inl ((keeps_answer Scan.keeps_staged.searchNear s).symm.trans h)
    | walk dir n => exact Or.inl ((Scan.keeps_walk (Scan.keeps_staged.step dir) n s).symm.trans h)
    | setTxn txn => exact Or.inl h
    | get => exact Or.inl h
    | reset => cases h
    | _ => cases hcall

namespace Session

variable {s : Session} {f : Format}

def StagesPacked (s : Session) (f : Format) : Prop :=
  ∀ c ∈ s.cursors, ∀ packed, c.staged = some packed → ∃ key, f.packKey key = .ok packed

theorem stagesPacked_fresh (f : Format) (paging : Paging) : (fresh f paging).StagesPacked f :=
  fun _ hc => absurd hc List.not_mem_nil

private theorem StagesPacked.onCursor (h : s.StagesPacked f) (hformat : s.table.format = f) (i : Nat)
    (call : CursorCall) : (s.onCursor i call).2.StagesPacked f := by
  rw [Session.onCursor]
  cases hc : s.cursors[i]? with
  | none => exact h
  | some c =>
    intro d hd packed hpacked
    rcases List.mem_or_eq_of_mem_set hd with hd | rfl
    · exact h d hd packed hpacked
    · rcases call.staged_run ⟨c, s.table⟩ hpacked with hstaged | hpack
      · exact h c (List.mem_of_getElem? hc) packed hstaged
      · exact hformat ▸ hpack

private theorem StagesPacked.run (h : s.StagesPacked f) (hformat : s.table.format = f) (call : Call) :
    (s.run call).2.StagesPacked f := by
  have hwrite : ∀ txn key value, (s.write txn key value).2.StagesPacked f := by
    intro txn key value
    rw [write]
    cases s.txn? txn with
    | none => exact h
    | some txn =>
      dsimp only
      cases (Table.write txn key value).run s.table <;> exact h
  cases call with
  | txn call => exact h
  | store call => exact h
  | insert txn key value => exact hwrite txn key (some value)
  | remove txn key => exact hwrite txn key none
  | stats => exact h
  | openCursor options =>
    intro c hc packed hpacked
    rcases List.mem_append.1 hc with hc | hc
    · exact h c hc packed hpacked
    · obtain rfl := List.mem_singleton.1 hc
      cases hpacked
  | closeCursor i => exact h.onCursor hformat i .reset
  | setTxn i txn =>
    rw [Session.run]
    cases s.txn? txn with
    | none => exact h
    | some txn => exact h.onCursor hformat i (.setTxn txn)
  | cursor i call => exact h.onCursor hformat i call

theorem stagesPacked_after (h : s.StagesPacked f) (hs : s.table.Sound f) {calls : List Call}
    (hm : ∀ n < calls.length, (s.after (calls.take n)).table.store.InMemory) :
    (s.after calls).StagesPacked f := by
  induction calls generalizing s with
  | nil => exact h
  | cons call calls ih =>
    refine ih (h.run hs.format call) (sound_run hs (hm 0 (Nat.succ_pos _)) call) fun n hn => ?_
    exact hm (n + 1) (Nat.succ_lt_succ hn)

end Session

end Keyspan
