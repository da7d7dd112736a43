import Keyspan.Proofs.Key.Typed
import Keyspan.Proofs.Session.Walk

set_option autoImplicit false
set_option relaxedAutoImplicit false

namespace Keyspan

open Std

/-- The packed key of a key that passes the check, and the value it reads as. -/
def ShownBy (f : Format) (S : Bytes → Outcome) (k v : Bytes) : Prop :=
  (∃ key, f.check key = .ok () ∧ key.encode = k) ∧ k.length < 2 ^ 64 ∧ S k = .value v

/-- All that is shown within some bounds, as typed entries in typed order. -/
structure Entries (f : Format) (b : Bounds) (S : Bytes → Outcome) (es : List Entry) : Prop where
  sorted : es.Pairwise fun x y => x.key.compare y.key = .lt
  mem_iff : ∀ key v, ⟨key, v⟩ ∈ es ↔ f.check key = .ok () ∧ key.encode.length < 2 ^ 64 ∧
    b.admits f key.encode = true ∧ S key.encode = .value v

def Entry.held (e : Entry) : Held :=
  ⟨e.key.encode, e.value⟩

theorem Entries.entry_held {f : Format} {b : Bounds} {S : Bytes → Outcome} {es : List Entry}
    (h : Entries f b S es) {e : Entry} (he : e ∈ es) : Scan.entry f e.held = some e := by
  obtain ⟨hkey, hsize, -⟩ := (h.mem_iff e.key e.value).1 he
  show Scan.entry f ⟨e.key.encode, e.value⟩ = some e
  rw [Scan.entry, Format.unpackKey_encode hkey hsize]

theorem Entries.lists_held {f : Format} {b : Bounds} {S : Bytes → Outcome} {es : List Entry}
    (h : Entries f b S es) (dir : Direction) :
    Scan.Lists f b (ShownBy f S) dir ((dir.arrange es).map Entry.held) := by
  refine ⟨?_, fun x => ?_⟩
  · have hascending : es.Pairwise fun x y =>
        (KeyOrder.typed f).compare x.key.encode y.key.encode = .lt := by
      refine List.Pairwise.imp_of_mem ?_ h.sorted
      intro x y hx hy hlt
      obtain ⟨hx, hsx, -⟩ := (h.mem_iff x.key x.value).1 hx
      obtain ⟨hy, hsy, -⟩ := (h.mem_iff y.key y.value).1 hy
      rw [Format.compare_encode hx hy hsx hsy]
      exact hlt
    exact List.pairwise_map.2 (Direction.meets_arrange hascending)
  · rw [List.mem_map]
    constructor
    · rintro ⟨e, he, rfl⟩
      obtain ⟨hkey, hsize, hin, hS⟩ :=
        (h.mem_iff e.key e.value).1 (Direction.mem_arrange.1 he)
      exact ⟨⟨⟨e.key, hkey, rfl⟩, hsize, hS⟩, hin⟩
    · rintro ⟨⟨⟨key, hkey, hencode⟩, hsize, hS⟩, hin⟩
      rw [← hencode] at hsize hS hin
      refine ⟨⟨key, x.value⟩, Direction.mem_arrange.2 ((h.mem_iff _ _).2 ⟨hkey, hsize, hin, hS⟩), ?_⟩
      show (⟨key.encode, x.value⟩ : Held) = x
      rw [hencode]

theorem Entries.lists {f : Format} {b : Bounds} {S : Bytes → Outcome} {es : List Entry}
    (h : Entries f b S es) (dir : Direction) :
    ∃ all, Scan.Lists f b (ShownBy f S) dir all ∧
      all.map (Scan.entry f) = (dir.arrange es).map some := by
  refine ⟨_, h.lists_held dir, ?_⟩
  rw [List.map_map]
  exact List.map_congr_left fun e he => h.entry_held (Direction.mem_arrange.1 he)

namespace Table.Follows

variable {t : Table} {f : Format} {log : Log}

theorem exists_key (h : t.Follows f log) (hweight : log.weight < 2 ^ 64) {r : Record}
    (hr : r ∈ t.store.records) :
    ∃ key, f.check key = .ok () ∧ key.encode = r.key ∧ r.key.length < 2 ^ 64 := by
  rw [h.store.records] at hr
  obtain ⟨a, ha, hak⟩ := (Flat.collects_ofAppends log.appends).keyed r hr
  obtain ⟨key, hkey, hencode⟩ := h.keys a ha
  have hlen := Log.length_key_le ha
  refine ⟨key, hkey, hencode.symm.trans hak, ?_⟩
  rw [← hak]
  omega

private theorem exists_record (h : t.Follows f log) (hweight : log.weight < 2 ^ 64) {key : Key}
    (hkey : f.check key = .ok ()) (hsize : key.encode.length < 2 ^ 64)
    (hupdated : log.updates (.typed f) key.encode ≠ []) :
    ∃ r ∈ t.store.records, r.key = key.encode := by
  have hfound : ∃ a ∈ log.appends, (KeyOrder.typed f).compare a.1 key.encode = .eq := by
    refine Decidable.byContradiction fun hno => hupdated ?_
    rw [Log.updates_eq]
    exact Flat.chain_eq_nil fun a ha he => hno ⟨a, ha, he⟩
  obtain ⟨a, ha, hak⟩ := hfound
  obtain ⟨r, hr, hra⟩ := (Flat.collects_ofAppends log.appends).complete a ha
  have hr' : r ∈ t.store.records := by
    rw [h.store.records]
    exact hr
  obtain ⟨key', hkey', hencode, hsize'⟩ := h.exists_key hweight hr'
  have heq : (KeyOrder.typed f).compare key'.encode key.encode = .eq := by
    rw [hencode]
    exact TransCmp.eq_trans hra hak
  rw [Format.compare_encode hkey' hkey (hencode ▸ hsize') hsize] at heq
  refine ⟨r, hr', ?_⟩
  rw [← hencode, Format.eq_of_compare hkey' hkey heq]

variable {S : Bytes → Outcome}

/-- Records that are read as the keys read, or in conflict, show what the keys read as. -/
theorem shows (h : t.Follows f log) (hweight : log.weight < 2 ^ 64) {c : Cursor}
    (hvalue : ∀ k v, S k = .value v → log.updates (.typed f) k ≠ [])
    (hread : ∀ r ∈ t.store.records, t.judge (Scan.reader ⟨c, t⟩) r = .conflict ∨
      t.judge (Scan.reader ⟨c, t⟩) r = S r.key) :
    Scan.Shows ⟨c, t⟩ (ShownBy f S) where
  ordered := by
    rw [h.format]
    exact h.store.ordered
  judged r hr := by
    obtain ⟨key, hkey, hencode, hsize⟩ := h.exists_key hweight hr
    rcases hread r hr with hconflict | hjudge
    · exact Or.inl hconflict
    · cases hS : S r.key with
      | value b =>
        exact Or.inr (Or.inl ⟨b, hjudge.trans hS, ⟨key, hkey, hencode⟩, hsize, hS⟩)
      | hidden =>
        refine Or.inr (Or.inr ⟨hjudge.trans hS, ?_⟩)
        rintro b ⟨-, -, hb⟩
        rw [hS] at hb
        cases hb
      | conflict => exact Or.inl (hjudge.trans hS)
  stored k v := by
    rintro ⟨⟨key, hkey, rfl⟩, hsize, hS⟩
    exact h.exists_record hweight hkey hsize (hvalue _ _ hS)
  unpacks r hr := by
    obtain ⟨key, hkey, hencode, hsize⟩ := h.exists_key hweight hr
    refine ⟨key, ?_⟩
    show t.format.unpackKey r.key = .ok key
    rw [h.format, ← hencode]
    exact Format.unpackKey_encode hkey (hencode ▸ hsize)

/-- The entry of a record within the bounds that reads as a value. -/
def listed? (f : Format) (b : Bounds) (S : Bytes → Outcome) (r : Record) : Option Entry :=
  match b.admits f r.key, S r.key, f.unpackKey r.key with
  | true, .value v, .ok key => some ⟨key, v⟩
  | _, _, _ => none

private theorem listed?_eq_some_iff {b : Bounds} {r : Record} {e : Entry} :
    listed? f b S r = some e ↔ b.admits f r.key = true ∧ S r.key = .value e.value ∧
      f.unpackKey r.key = .ok e.key := by
  rw [listed?]
  constructor
  · intro he
    split at he
    next v key hin hS hkey =>
      obtain rfl := Option.some.inj he
      exact ⟨hin, hS, hkey⟩
    next => cases he
  · rintro ⟨hin, hS, hkey⟩
    rw [hin, hS, hkey]

theorem exists_entries (h : t.Follows f log) (hweight : log.weight < 2 ^ 64)
    (hvalue : ∀ k v, S k = .value v → log.updates (.typed f) k ≠ []) (b : Bounds) :
    ∃ es, Entries f b S es := by
  have hrecord : ∀ r ∈ t.store.records, ∀ e, listed? f b S r = some e →
      f.check e.key = .ok () ∧ e.key.encode = r.key ∧ r.key.length < 2 ^ 64 := by
    intro r hr e he
    obtain ⟨-, -, hunpack⟩ := listed?_eq_some_iff.1 he
    obtain ⟨key, hkey, hencode, hsize⟩ := h.exists_key hweight hr
    rw [← hencode, Format.unpackKey_encode hkey (hencode ▸ hsize)] at hunpack
    obtain rfl := Except.ok.inj hunpack
    exact ⟨hkey, hencode, hsize⟩
  refine ⟨t.store.records.filterMap (listed? f b S), ?_, fun key v => ?_⟩
  · have hascending := h.store.valid.ascending
    rw [h.store.ordered] at hascending
    refine List.pairwise_filterMap.2 (List.Pairwise.imp_of_mem ?_ hascending)
    intro r r' hr hr' hlt e he e' he'
    obtain ⟨hkey, hencode, hsize⟩ := hrecord r hr e he
    obtain ⟨hkey', hencode', hsize'⟩ := hrecord r' hr' e' he'
    rw [← hencode, ← hencode',
      Format.compare_encode hkey hkey' (hencode ▸ hsize) (hencode' ▸ hsize')] at hlt
    exact hlt
  · rw [List.mem_filterMap]
    constructor
    · rintro ⟨r, hr, he⟩
      obtain ⟨hin, hS, -⟩ := listed?_eq_some_iff.1 he
      obtain ⟨hkey, hencode, hsize⟩ := hrecord r hr _ he
      dsimp only at hkey hencode hS
      rw [hencode]
      exact ⟨hkey, hsize, hin, hS⟩
    · rintro ⟨hkey, hsize, hin, hS⟩
      obtain ⟨r, hr, hrk⟩ := h.exists_record hweight hkey hsize (hvalue _ _ hS)
      refine ⟨r, hr, listed?_eq_some_iff.2 ?_⟩
      rw [hrk]
      exact ⟨hin, hS, Format.unpackKey_encode hkey hsize⟩

end Table.Follows

end Keyspan
