import Keyspan.Proofs.Cursor.Walk
import Keyspan.Proofs.Session.Run

set_option autoImplicit false
set_option relaxedAutoImplicit false

namespace Keyspan

def Direction.call : Direction → CursorCall
  | forward => .next
  | backward => .prev

def Call.isStep (i : Nat) (dir : Direction) (call : Call) : Bool :=
  call = .cursor i dir.call

theorem Call.isStep_iff {i : Nat} {dir : Direction} {call : Call} :
    call.isStep i dir = true ↔ call = .cursor i dir.call :=
  decide_eq_true_iff

def Reply.found? : Reply → Option (Option Entry)
  | entry e => some e
  | _ => none

namespace Session

def repliesTo (s : Session) (p : Call → Bool) (calls : List Call) : List Reply :=
  ((calls.zip (s.runAll calls).1).filter fun x => p x.1).map (·.2)

theorem repliesTo_cons_of_pos {p : Call → Bool} {call : Call} (h : p call = true) (s : Session)
    (calls : List Call) :
    s.repliesTo p (call :: calls) = (s.run call).1 :: (s.run call).2.repliesTo p calls := by
  show (((call, (s.run call).1) :: calls.zip ((s.run call).2.runAll calls).1).filter
    fun x => p x.1).map (·.2) = _
  rw [List.filter_cons_of_pos (p := fun x : Call × Reply => p x.1) h]
  rfl

theorem repliesTo_cons_of_neg {p : Call → Bool} {call : Call} (h : ¬ p call = true) (s : Session)
    (calls : List Call) :
    s.repliesTo p (call :: calls) = (s.run call).2.repliesTo p calls := by
  show (((call, (s.run call).1) :: calls.zip ((s.run call).2.runAll calls).1).filter
    fun x => p x.1).map (·.2) = _
  rw [List.filter_cons_of_neg (p := fun x : Call × Reply => p x.1) h]
  rfl

theorem length_repliesTo (p : Call → Bool) (s : Session) (calls : List Call) :
    (s.repliesTo p calls).length = (calls.filter p).length := by
  induction calls generalizing s with
  | nil => rfl
  | cons call calls ih =>
    by_cases h : p call = true
    · rw [repliesTo_cons_of_pos h, List.filter_cons_of_pos h, List.length_cons, List.length_cons, ih]
    · rw [repliesTo_cons_of_neg h, List.filter_cons_of_neg h, ih]

theorem repliesTo_append_of_none {p : Call → Bool} {front : List Call}
    (h : ∀ call ∈ front, ¬ p call = true)
    (s : Session) (calls : List Call) :
    s.repliesTo p (front ++ calls) = (s.after front).repliesTo p calls := by
  induction front generalizing s with
  | nil => rfl
  | cons call front ih =>
    rw [List.cons_append, repliesTo_cons_of_neg (h call List.mem_cons_self),
      ih fun c hc => h c (List.mem_cons_of_mem call hc)]
    rfl

theorem run_step_ok {s : Session} {i : Nat} {c : Cursor} (hc : s.cursors[i]? = some c)
    (dir : Direction) {e : Option Entry} {u : Scan}
    (h : (Scan.step dir).run ⟨c, s.table⟩ = .ok e u) :
    s.run (.cursor i dir.call) =
      (.entry e, { s with table := u.table, cursors := s.cursors.set i u.cursor }) := by
  have hcall : dir.call.run ⟨c, s.table⟩ = (.entry e, u) := by
    cases dir with
    | forward =>
      show CursorCall.answer .entry (Scan.step .forward) ⟨c, s.table⟩ = _
      rw [CursorCall.answer, h]
    | backward =>
      show CursorCall.answer .entry (Scan.step .backward) ⟨c, s.table⟩ = _
      rw [CursorCall.answer, h]
  show s.onCursor i dir.call = _
  simp only [onCursor, hc, hcall]

theorem run_step_error {s : Session} {i : Nat} {c : Cursor} (hc : s.cursors[i]? = some c)
    (dir : Direction) {e : Error} {u : Scan}
    (h : (Scan.step dir).run ⟨c, s.table⟩ = .error e u) :
    s.run (.cursor i dir.call) =
      (.failed e, { s with table := u.table, cursors := s.cursors.set i u.cursor }) := by
  have hcall : dir.call.run ⟨c, s.table⟩ = (.failed e, u) := by
    cases dir with
    | forward =>
      show CursorCall.answer .entry (Scan.step .forward) ⟨c, s.table⟩ = _
      rw [CursorCall.answer, h]
    | backward =>
      show CursorCall.answer .entry (Scan.step .backward) ⟨c, s.table⟩ = _
      rw [CursorCall.answer, h]
  show s.onCursor i dir.call = _
  simp only [onCursor, hc, hcall]

/-- An invariant, for the calls still to come, under which a cursor can walk: it is always shown the
same, and calls other than its steps leave it as it is. -/
structure Scanning (I : List Call → Session → Prop) (i : Nat) (dir : Direction) (f : Format)
    (b : Bounds) (shown : Bytes → Bytes → Prop) (mayFail : Prop) : Prop where
  ready : ∀ call calls s, I (call :: calls) s →
    ∃ c, s.cursors[i]? = some c ∧ Scan.Ready ⟨c, s.table⟩ f b shown mayFail
  keeps : ∀ call calls s, I (call :: calls) s → I calls (s.run call).2
  leaves : ∀ call calls s, I (call :: calls) s → call ≠ .cursor i dir.call →
    (s.run call).2.cursors[i]? = s.cursors[i]?

variable {I : List Call → Session → Prop} {i : Nat} {dir : Direction} {f : Format} {b : Bounds}
  {shown : Bytes → Bytes → Prop} {mayFail : Prop}

/-- The steps of a cursor find the entries before it in turn, and all of them before they find none. -/
theorem Scanning.found (h : Scanning I i dir f b shown mayFail) {all : List Held}
    (hlists : Scan.Lists f b shown dir all) {calls : List Call} {s : Session} (hI : I calls s)
    {c : Cursor} (hc : s.cursors[i]? = some c) {rest : List Held}
    (hstands : Scan.Stands c.position all rest) :
    let found := (s.repliesTo (Call.isStep i dir) calls).filterMap Reply.found?
    found.takeWhile Option.isSome <+: rest.map (Scan.entry f) ∧
      (none ∈ found → found.takeWhile Option.isSome = rest.map (Scan.entry f)) := by
  induction calls generalizing s c rest with
  | nil => exact ⟨List.nil_prefix, fun hnone => absurd hnone List.not_mem_nil⟩
  | cons call calls ih =>
    have hnext := h.keeps call calls s hI
    by_cases hstep : call.isStep i dir = true
    · rw [repliesTo_cons_of_pos hstep]
      obtain rfl := Call.isStep_iff.1 hstep
      obtain ⟨c', hc', hready⟩ := h.ready _ calls s hI
      obtain rfl := Option.some.inj (hc.symm.trans hc')
      have hi : i < s.cursors.length := (List.getElem?_eq_some_iff.1 hc).1
      have hset : ∀ c' : Cursor, (s.cursors.set i c')[i]? = some c' := fun c' =>
        List.getElem?_set_self hi
      rcases hready.step_cases hlists hstands with
        ⟨-, key, t, hrun⟩ | ⟨x, rest', t, rfl, hsome, hrun, hstands'⟩ | ⟨rfl, u, hrun⟩
      · -- a conflict: the cursor stays and nothing counts as found
        have hreply := run_step_error hc dir hrun
        rw [hreply] at hnext ⊢
        exact ih hnext (hset c) hstands
      · have hreply := run_step_ok hc dir hrun
        rw [hreply] at hnext ⊢
        obtain ⟨hfront, hall⟩ := ih hnext (hset _) hstands'
        rw [List.filterMap_cons]
        simp only [Reply.found?, List.takeWhile_cons_of_pos hsome, List.map_cons]
        refine ⟨(List.prefix_cons_inj _).2 hfront, fun hnone => ?_⟩
        rcases List.mem_cons.1 hnone with heq | hnone
        · rw [← heq] at hsome
          cases hsome
        · rw [hall hnone]
      · have hreply := run_step_ok hc dir hrun
        rw [hreply]
        exact ⟨List.nil_prefix, fun _ => rfl⟩
    · rw [repliesTo_cons_of_neg hstep]
      refine ih hnext ?_ hstands
      rw [h.leaves call calls s hI fun hcall => hstep (Call.isStep_iff.2 hcall)]
      exact hc

theorem Scanning.replies (h : Scanning I i dir f b shown mayFail) {calls : List Call} {s : Session}
    (hI : I calls s) :
    ∀ reply ∈ s.repliesTo (Call.isStep i dir) calls,
      (∃ e, reply = .entry e) ∨ (mayFail ∧ ∃ key, reply = .failed (.preparedConflict key)) := by
  induction calls generalizing s with
  | nil => exact fun reply hreply => absurd hreply List.not_mem_nil
  | cons call calls ih =>
    have hnext := h.keeps call calls s hI
    by_cases hstep : call.isStep i dir = true
    · rw [repliesTo_cons_of_pos hstep]
      obtain rfl := Call.isStep_iff.1 hstep
      intro reply hreply
      rcases List.mem_cons.1 hreply with rfl | hreply
      · obtain ⟨c, hc, hready⟩ := h.ready _ calls s hI
        obtain ⟨p, t, ⟨e, hrun⟩ | ⟨hmay, key, hrun⟩⟩ := hready.step_reply dir
        · rw [run_step_ok hc dir hrun]
          exact Or.inl ⟨e, rfl⟩
        · rw [run_step_error hc dir hrun]
          exact Or.inr ⟨hmay, key, rfl⟩
      · exact ih hnext reply hreply
    · rw [repliesTo_cons_of_neg hstep]
      exact ih hnext

end Session

end Keyspan
