import Keyspan.Proofs.Store.Eviction
import Keyspan.Proofs.Store.Layout
import Keyspan.Proofs.Store.Seek

set_option autoImplicit false
set_option relaxedAutoImplicit false

namespace Keyspan.Store

variable {s t u : Store} {r : Record}

def Resident (s : Store) (key : Bytes) : Prop :=
  ∃ p, s.pages[s.pageFor key]? = some p ∧ p.isResident = true

/-- The record is on some page that is in memory. -/
def AtHand (s : Store) (r : Record) : Prop :=
  ∃ (i : Nat) (p : Page), s.pages[i]? = some p ∧ p.isResident = true ∧ r ∈ p.contents s.codec

private theorem AtHand.resident (h : s.AtHand r) (hs : s.Valid) : s.Resident r.key := by
  obtain ⟨i, p, hp, hresident, hr⟩ := h
  obtain rfl := hs.pageFor_eq hp hr
  exact ⟨p, hp, hresident⟩

theorem atHand_of_load {i : Nat} {records : List Record} (hs : s.Valid)
    (hrun : (load i).run s = .ok records t) (hr : r ∈ records) : t.AtHand r := by
  simp only [load, EStateM.run_bind, EStateM.run_get] at hrun
  cases hp : s.pages[i]? with
  | none =>
    rw [hp] at hrun
    cases hrun
    cases hr
  | some p =>
    rw [hp] at hrun
    rcases p.reload?_cases s.paging.verify (hs.sound p (List.mem_of_getElem? hp)) with
      ⟨hreload, hrecords⟩ | hreload
    · simp only [hreload, hrecords] at hrun
      cases hrun
      have hbody : p.isResident = true := by
        rw [Page.records?] at hrecords
        rw [Page.isResident]
        cases hb : p.body with
        | resident _ => rfl
        | evicted _ =>
          rw [hb] at hrecords
          cases hrecords
      exact ⟨i, p, hp, hbody, hr⟩
    · simp only [hreload] at hrun
      cases hrun
      obtain ⟨hi, -⟩ := List.getElem?_eq_some_iff.1 hp
      exact ⟨i, p.settled s.codec, List.getElem?_set_self hi, rfl, hr⟩

private theorem atHand_of_firstFrom {isFront : Record → Bool} {count i : Nat} (hs : s.Valid)
    (hrun : (firstFrom isFront count i).run s = .ok (some r) t) : t.AtHand r := by
  induction count generalizing i s with
  | zero => cases hrun
  | succ count ih =>
    obtain ⟨u, hload, -, hu⟩ := load_run hs i
    simp only [firstFrom, EStateM.run_bind, hload] at hrun
    cases hnext : Front.next? isFront ((s.pages[i]?.map (Page.contents s.codec)).getD []) with
    | none =>
      rw [hnext] at hrun
      exact ih hu hrun
    | some x =>
      rw [hnext] at hrun
      cases hrun
      rw [Front.next?] at hnext
      exact atHand_of_load hs hload (List.mem_of_getElem? hnext)

private theorem atHand_of_lastAmong {isFront : Record → Bool} {count : Nat} (hs : s.Valid)
    (hrun : (lastAmong isFront count).run s = .ok (some r) t) : t.AtHand r := by
  induction count generalizing s with
  | zero => cases hrun
  | succ count ih =>
    obtain ⟨u, hload, -, hu⟩ := load_run hs count
    simp only [lastAmong, EStateM.run_bind, hload] at hrun
    cases hlast : Front.last? isFront ((s.pages[count]?.map (Page.contents s.codec)).getD []) with
    | none =>
      rw [hlast] at hrun
      exact ih hu hrun
    | some x =>
      rw [hlast] at hrun
      cases hrun
      refine atHand_of_load hs hload ?_
      rw [Front.last?] at hlast
      split at hlast
      · cases hlast
      · exact List.mem_of_getElem? hlast

private theorem atHand_of_locate {m : Seek} (hs : s.Valid)
    (hrun : (locate m).run s = .ok (some r) t) :
    t.AtHand r := by
  simp only [locate, EStateM.run_bind, EStateM.run_get] at hrun
  cases m with
  | first => exact atHand_of_firstFrom hs hrun
  | atOrAfter key => exact atHand_of_firstFrom hs hrun
  | after key => exact atHand_of_firstFrom hs hrun
  | last => exact atHand_of_lastAmong hs hrun
  | atOrBefore key => exact atHand_of_lastAmong hs hrun
  | before key => exact atHand_of_lastAmong hs hrun
  | exact key =>
    obtain ⟨u, hload, -, -⟩ := load_run hs (s.pageFor key)
    simp only [EStateM.run_bind, hload, EStateM.run_pure] at hrun
    obtain ⟨hfound, rfl⟩ := EStateM.Result.ok.inj hrun
    have hnext := (Option.filter_eq_some_iff.1 hfound).1
    rw [Front.next?] at hnext
    exact atHand_of_load hs hload (List.mem_of_getElem? hnext)

theorem resident_of_seek {m : Seek} (hs : s.Valid) (hrun : (seek m).run s = .ok (some r) t) :
    t.Resident r.key := by
  obtain ⟨u, hseek, -, ht⟩ := seek_run hs m
  obtain ⟨-, rfl⟩ := EStateM.Result.ok.inj (hrun.symm.trans hseek)
  obtain ⟨v, hlocate, -, -⟩ := locate_run hs m
  refine AtHand.resident ?_ ht
  simp only [seek, EStateM.run_bind, hlocate] at hrun
  cases hfound : Flat.pick s.order s.records m with
  | none =>
    rw [hfound] at hrun
    cases hrun
  | some x =>
    rw [hfound] at hrun hlocate
    cases hrun
    exact atHand_of_locate (t := v) hs hlocate

theorem release_matching (hst : s.Alike t) (hs : s.Valid) (ht : t.Valid) (hm : s.InMemory)
    {key : Bytes} (hskey : s.Resident key) (htkey : t.Resident key) :
    Matching (fun u v => s.Alike u ∧ u.Valid ∧ t.Alike v ∧ v.Valid) ((release key).run s)
      ((release key).run t) := by
  obtain ⟨p, hp, hpres⟩ := hskey
  obtain ⟨q, hq, hqres⟩ := htkey
  have hcontents : q.contents t.codec = p.contents s.codec := by
    have hpage := hst.contents_getElem? (s.pageFor key)
    rw [hst.pageFor_eq hs ht] at hq
    rw [hq, hp] at hpage
    exact Option.some.inj hpage
  -- what becomes of a page in memory is decided by its records
  have hend : ∀ {w : Store} {x : Page}, w.pages[w.pageFor key]? = some x → x.isResident = true →
      (release key).run w = match Image.encode w.codec w.paging.compression (x.contents w.codec) with
        | .ok image => .ok () { w with
            pages := w.pages.set (w.pageFor key) { x with body := .evicted image }
            stats.evictions := w.stats.evictions + 1 }
        | .error fault => .error fault w := by
    intro w x hx hres
    obtain ⟨first, body⟩ := x
    cases body with
    | evicted image => cases hres
    | resident records =>
      simp only [release, evictContaining, evictPage, EStateM.run_bind, EStateM.run_get, hx,
        Page.evict?, Page.contents]
      cases Image.encode w.codec w.paging.compression records <;> rfl
  obtain ⟨u, hsu, hu, hsend⟩ := harmless_release key s hs hm
  obtain ⟨v, htv, hv, htend⟩ := harmless_release key t ht (hst.inMemory hm)
  have hsrun := hend hp hpres
  have htrun := hend hq hqres
  rw [hcontents, hst.codec, hst.paging] at htrun
  cases himage : Image.encode s.codec s.paging.compression (p.contents s.codec) with
  | ok image =>
    rw [himage] at hsrun htrun
    rw [hsrun, htrun]
    rw [hsrun] at hsend
    rw [htrun] at htend
    rcases hsend with ⟨x, hx⟩ | ⟨⟨e, he⟩, -⟩
    · rcases htend with ⟨y, hy⟩ | ⟨⟨e, he⟩, -⟩
      · cases hx
        cases hy
        exact .ok ⟨hsu, hu, htv, hv⟩
      · cases he
    · cases he
  | error fault =>
    rw [himage] at hsrun htrun
    rw [hsrun, htrun]
    exact .error ⟨.refl s, hs, .refl t, ht⟩

end Keyspan.Store
