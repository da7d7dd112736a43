import Keyspan.Proofs.Cursor.Nearest

/-!
The record that decides a near search which stays with the keys that start as the staged one does.

It is the first of these keys that both bounds admit and that is not hidden from the reader. The search is
one hunt, which ends at the first key without the leading part. That is no loss: from the staged key on,
and so from a lower bound above it on, the keys with the leading part come first, and before the staged
key there are none.
-/

set_option autoImplicit false
set_option relaxedAutoImplicit false

namespace Keyspan.Scan

variable {s : Scan} {key lead : Bytes}

/-- The first record that both bounds admit, whose key starts with `lead`, and that is not hidden from the
reader. -/
def leading? (s : Scan) (lead : Bytes) : Option Record :=
  (s.table.store.records.filter fun r => s.cursor.bounds.admits s.table.format r.key &&
    s.table.format.startsWith lead r.key).find? fun r => s.table.judge s.reader r ≠ .hidden

theorem mem_leading? {r : Record} (h : s.leading? lead = some r) : r ∈ s.table.store.records ∧
    s.cursor.bounds.admits s.table.format r.key = true ∧
    s.table.format.startsWith lead r.key = true ∧ s.table.judge s.reader r ≠ .hidden := by
  obtain ⟨hmem, hkey⟩ := List.mem_filter.1 (List.mem_of_find?_eq_some h)
  rw [Bool.and_eq_true] at hkey
  have hno := List.find?_some h
  exact ⟨hmem, hkey.1, hkey.2, of_decide_eq_true hno⟩

section Ahead

variable (hordered : s.table.store.order = .typed s.table.format)
  (slice : s.table.format.IsSlice) (hlead : s.table.format.leadField? key = some lead)
  (unpacks : ∀ r ∈ s.table.store.records, ∃ k, s.table.format.unpackKey r.key = .ok k)
include hordered slice hlead unpacks

theorem leading?_eq : s.leading? lead =
    ((s.table.ahead .forward (s.nearOrigin key)).filter fun r =>
      s.cursor.bounds.admitsForward s.table.format r.key &&
        hasLead s.table.format (some lead) r.key).find?
          fun r => s.table.judge s.reader r ≠ .hidden := by
  rw [leading?, Table.ahead, Flat.ahead, hordered, List.filter_filter]
  congr 1
  refine List.filter_congr fun r hr => ?_
  obtain ⟨k, hk⟩ := unpacks r hr
  rw [accepts_nearOrigin, ← Format.hasLead_eq_startsWith slice hk, Direction.admits_eq .forward]
  cases hstarts : hasLead s.table.format (some lead) r.key with
  | false => simp
  | true =>
    have hnot := Format.not_lt_of_hasLead slice hlead hstarts
    simp [hnot, Direction.admits]

theorem closed_leading (hs : s.table.store.Valid) :
    (s.table.ahead .forward (s.nearOrigin key)).Pairwise fun x y =>
      (s.cursor.bounds.admitsForward s.table.format x.key &&
        hasLead s.table.format (some lead) x.key) = false →
      (s.cursor.bounds.admitsForward s.table.format y.key &&
        hasLead s.table.format (some lead) y.key) = false := by
  refine (meets_ahead hs hordered .forward _).imp_of_mem fun {x y} hx _ hxy hout => ?_
  obtain ⟨hstored, haccepts⟩ := Flat.mem_ahead.1 hx
  rw [hordered, accepts_nearOrigin, Bool.and_eq_true, decide_eq_true_iff] at haccepts
  rw [Bool.and_eq_false_iff] at hout ⊢
  rcases hout with hadmits | hstarts
  · left
    exact Direction.not_admits_of_meets hxy hadmits
  · right
    obtain ⟨k, hk⟩ := unpacks x hstored
    obtain ⟨field, -, hfield⟩ := Format.leadField?_of_unpackKey slice hk
    cases hnext : hasLead s.table.format (some lead) y.key with
    | false => rfl
    | true =>
      rw [Format.hasLead_of_lt slice hlead ⟨field, hfield⟩ haccepts.1 hxy hnext] at hstarts
      cases hstarts

/-- With a leading part to stay in, a near search is decided by the first record that has it. -/
theorem neared_eq_nears_leading (hs : s.table.store.Valid)
    (unprepared : ∀ txn, s.cursor.txn = some txn → s.table.ledger.state txn ≠ .prepared)
    (confined : s.cursor.options.prefixSearch = true)
    (staged : s.cursor.staged = some key) : s.neared = s.nears key (s.leading? lead) := by
  have hleadOf : s.leadOf key = some lead := by
    rw [leadOf, if_pos confined, hlead]
  rw [neared, keyed_of_staged unprepared staged]
  simp only [hleadOf, Option.isSome_some, if_true]
  rw [quarryAbove, hleadOf, hunted_hunt _ _ (closed_leading hordered slice hlead unpacks hs), nears,
    leading?_eq hordered slice hlead unpacks]
  refine settled_congr fun r b hr => ?_
  have hkey := List.of_mem_filter (List.mem_of_find?_eq_some hr)
  rw [Bool.and_eq_true] at hkey
  rw [nearness_eq (Format.not_lt_of_hasLead slice hlead hkey.2)]

end Ahead

end Keyspan.Scan
