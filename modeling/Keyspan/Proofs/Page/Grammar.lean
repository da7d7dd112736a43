import Keyspan.Proofs.Page.Corruption

/-!
The language of uncompressed page images.

A grammar says which bytes are laid out for which records. It leaves open how a number may be spelled, so
one grammar serves for all payloads that read and for those in which every number is at its shortest. A
reader is exact for a layout when what it takes off the front is just what is laid out so. Exact readers
compose, and from the reader of a payload being exact follow that no payload goes on as another one and
that none stands for two lists of records.
-/

set_option autoImplicit false
set_option relaxedAutoImplicit false

namespace Keyspan

namespace Varint

/-- A spelling of a 64-bit number, in at most ten groups. -/
def Number (spelling : Bytes) (n : Nat) : Prop :=
  Spells spelling n ∧ spelling.length ≤ maxGroups ∧ n < 2 ^ 64

/-- A spelling of a 64-bit number than which there is no shorter one. -/
def Shortest (spelling : Bytes) (n : Nat) : Prop :=
  Number spelling n ∧ ∀ other, Spells other n → spelling.length ≤ other.length

end Varint

section Layout

variable {α : Type}

inductive Joined (part : Bytes → α → Prop) : Bytes → List α → Prop
  | nil : Joined part [] []
  | cons {front rest : Bytes} {x : α} {xs : List α} (h : part front x) (hs : Joined part rest xs) :
    Joined part (front ++ rest) (x :: xs)

variable (number : Bytes → Nat → Prop)

inductive Prefixed : Bytes → Bytes → Prop
  | intro {length b : Bytes} (h : number length b.length) : Prefixed (length ++ b) b

/-- Parts for the elements of a list, with the number of elements in front. -/
inductive Counted (part : Bytes → α → Prop) : Bytes → List α → Prop
  | intro {count rest : Bytes} {xs : List α} (h : number count xs.length) (hs : Joined part rest xs) :
    Counted part (count ++ rest) xs

/-- The writer of a version, and a flag: 0 for a removal, 1 in front of a value. -/
inductive Version.Laid : Bytes → Version → Prop
  | removal {writer : Bytes} {id : TxnId} (h : number writer id.toNat) :
    Laid (writer ++ [0]) ⟨id, none⟩
  | value {writer value b : Bytes} {id : TxnId} (h : number writer id.toNat)
    (hb : Prefixed number value b) : Laid (writer ++ 1 :: value) ⟨id, some b⟩

inductive Record.Laid : Bytes → Record → Prop
  | intro {key versions : Bytes} {r : Record} (hkey : Prefixed number key r.key)
    (hversions : Counted number (Version.Laid number) versions r.versions) : Laid (key ++ versions) r

def Image.Laid (payload : Bytes) (records : List Record) : Prop :=
  Counted number (Record.Laid number) payload records

end Layout

/-- The reader takes off the front what is laid out so, and nothing else. -/
def Reader.Exact {α : Type} (r : Reader α) (part : Bytes → α → Prop) : Prop :=
  ∀ src x rest, r src = some (x, rest) ↔ ∃ front, part front x ∧ src = front ++ rest

namespace Reader.Exact

variable {α β : Type} {r : Reader α} {part : Bytes → α → Prop}

theorem append_inj (h : r.Exact part) {front front' rest rest' : Bytes} {x y : α}
    (hx : part front x) (hy : part front' y) (heq : front ++ rest = front' ++ rest') :
    front = front' ∧ x = y ∧ rest = rest' := by
  have hread := (h (front ++ rest) x rest).2 ⟨front, hx, rfl⟩
  rw [(h (front ++ rest) y rest').2 ⟨front', hy, heq⟩] at hread
  obtain ⟨rfl, rfl⟩ := Prod.mk.inj (Option.some.inj hread)
  exact ⟨List.append_cancel_right heq, rfl, rfl⟩

private theorem congr (h : r.Exact part) {other : Bytes → α → Prop}
    (hpart : ∀ b x, part b x ↔ other b x) : r.Exact other := by
  intro src x rest
  simp only [h src x rest, hpart]

private theorem pure (a : α) : Reader.Exact (Pure.pure a) fun b x => b = [] ∧ x = a := by
  intro src x rest
  rw [Reader.pure_run]
  constructor
  · intro heq
    obtain ⟨rfl, rfl⟩ := Prod.mk.inj (Option.some.inj heq)
    exact ⟨[], ⟨rfl, rfl⟩, rfl⟩
  · rintro ⟨_, ⟨rfl, rfl⟩, rfl⟩
    rfl

private theorem failure : Reader.Exact (failure : Reader α) fun _ _ => False := by
  intro src x rest
  exact ⟨nofun, fun ⟨_, h, _⟩ => h.elim⟩

private theorem byte : Reader.byte.Exact fun b x => b = [x] := by
  intro src x rest
  cases src with
  | nil => exact ⟨nofun, fun ⟨_, hb, heq⟩ => by simp [hb] at heq⟩
  | cons y src => simp [Reader.byte]

theorem bind (h : r.Exact part) {f : α → Reader β} {next : α → Bytes → β → Prop}
    (hf : ∀ x, (f x).Exact (next x)) :
    Reader.Exact (r >>= f) fun b y => ∃ x front back, part front x ∧ next x back y ∧
      b = front ++ back := by
  intro src y rest
  have hrun : (r >>= f) src = (r src).bind fun p => f p.1 p.2 := rfl
  rw [hrun, Option.bind_eq_some_iff]
  constructor
  · rintro ⟨⟨x, left⟩, hx, hy⟩
    obtain ⟨front, hfront, rfl⟩ := (h src x left).1 hx
    obtain ⟨back, hback, rfl⟩ := (hf x left y rest).1 hy
    exact ⟨front ++ back, ⟨x, front, back, hfront, hback, rfl⟩, (List.append_assoc _ _ _).symm⟩
  · rintro ⟨_, ⟨x, front, back, hfront, hback, rfl⟩, rfl⟩
    refine ⟨(x, back ++ rest), (h _ x _).2 ⟨front, hfront, List.append_assoc _ _ _⟩, ?_⟩
    exact (hf x _ y rest).2 ⟨back, hback, rfl⟩

theorem map (h : r.Exact part) (g : α → β) :
    Reader.Exact (r >>= fun x => Pure.pure (g x)) fun b y => ∃ x, part b x ∧ y = g x := by
  refine (h.bind fun x => pure (g x)).congr fun b y => ⟨?_, ?_⟩
  · rintro ⟨x, front, _, hx, ⟨rfl, rfl⟩, rfl⟩
    exact ⟨x, by rwa [List.append_nil], rfl⟩
  · rintro ⟨x, hx, rfl⟩
    exact ⟨x, b, [], hx, ⟨rfl, rfl⟩, (List.append_nil b).symm⟩

private theorem times (h : r.Exact part) (n : Nat) :
    (Reader.times n r).Exact fun b xs => xs.length = n ∧ Joined part b xs := by
  induction n with
  | zero =>
    rw [Reader.times_zero]
    refine (pure []).congr fun b xs => ⟨?_, ?_⟩
    · rintro ⟨rfl, rfl⟩
      exact ⟨rfl, .nil⟩
    · rintro ⟨hlen, hs⟩
      cases hs with
      | nil => exact ⟨rfl, rfl⟩
      | cons => cases hlen
  | succ n ih =>
    rw [Reader.times_succ]
    refine (h.bind fun x => ih.map (x :: ·)).congr fun b xs => ⟨?_, ?_⟩
    · rintro ⟨x, front, back, hx, ⟨ys, ⟨hlen, hys⟩, rfl⟩, rfl⟩
      exact ⟨congrArg Nat.succ hlen, .cons hx hys⟩
    · rintro ⟨hlen, hs⟩
      cases hs with
      | nil => cases hlen
      | @cons front back x ys hx hys =>
        exact ⟨x, front, back, hx, ⟨ys, ⟨Nat.succ.inj hlen, hys⟩, rfl⟩, rfl⟩

theorem all?_eq_some_iff (h : r.Exact part) {src : Bytes} {x : α} :
    r.all? src = some x ↔ part src x := by
  have hread := h src x []
  simp only [List.append_nil, exists_eq_right'] at hread
  rw [← hread, Reader.all?]
  rcases r src with _ | ⟨y, _ | ⟨b, rest⟩⟩ <;> simp

end Reader.Exact

open Varint (Number Shortest)

private theorem Varint.exact_read : Reader.Exact read fun b n => Number b n.toNat := by
  intro src n rest
  rw [read_eq_some_iff]
  constructor
  · rintro ⟨spelling, hspells, hlen, heq⟩
    exact ⟨spelling, ⟨hspells, hlen, n.toNat_lt⟩, heq⟩
  · rintro ⟨spelling, ⟨hspells, hlen, -⟩, heq⟩
    exact ⟨spelling, hspells, hlen, heq⟩

private theorem Varint.exact_readSlice : Reader.Exact readSlice (Prefixed Number) := by
  intro src b rest
  rw [readSlice_eq_some_iff]
  constructor
  · rintro ⟨spelling, hspells, hlen, hsize, rfl⟩
    exact ⟨spelling ++ b, ⟨hspells, hlen, hsize⟩, (List.append_assoc _ _ _).symm⟩
  · rintro ⟨_, ⟨hspells, hlen, hsize⟩, rfl⟩
    exact ⟨_, hspells, hlen, hsize, List.append_assoc _ _ _⟩

theorem Reader.Exact.counted {α : Type} {r : Reader α} {part : Bytes → α → Prop}
    (h : r.Exact part) :
    Reader.Exact (Varint.read >>= fun n => Reader.times n.toNat r) (Counted Number part) := by
  refine (Varint.exact_read.bind fun n => h.times n.toNat).congr fun b xs => ⟨?_, ?_⟩
  · rintro ⟨n, count, rest, hn, ⟨hlen, hs⟩, rfl⟩
    exact ⟨hlen ▸ hn, hs⟩
  · rintro ⟨hn, hs⟩
    have hnum := toNat_toUInt64 hn.2.2
    exact ⟨xs.length.toUInt64, _, _, hnum.symm ▸ hn, ⟨hnum.symm, hs⟩, rfl⟩

def Version.Tail (id : TxnId) (flag : UInt8) (b : Bytes) (v : Version) : Prop :=
  (flag = 0 ∧ b = [] ∧ v = ⟨id, none⟩) ∨
    (flag = 1 ∧ ∃ value, Prefixed Number b value ∧ v = ⟨id, some value⟩)

private theorem Version.exact_read : Reader.Exact read (Laid Number) := by
  refine Reader.Exact.congr (Varint.exact_read.bind fun id => Reader.Exact.byte.bind fun flag =>
    (?_ : Reader.Exact _ (Tail id flag))) fun b v => ⟨?_, ?_⟩
  · split
    · refine (Reader.Exact.pure _).congr fun b v => ?_
      simp [Tail]
    · refine (Varint.exact_readSlice.map _).congr fun b v => ?_
      simp [Tail]
    next h0 h1 =>
      exact Reader.Exact.failure.congr fun b v =>
        ⟨False.elim, fun h => h.elim (fun h => h0 h.1) fun h => h1 h.1⟩
  · rintro ⟨id, writer, _, hwriter, ⟨flag, _, back, rfl, hflag, rfl⟩, rfl⟩
    rcases hflag with ⟨rfl, rfl, rfl⟩ | ⟨rfl, value, hvalue, rfl⟩
    · exact .removal hwriter
    · exact .value hwriter hvalue
  · rintro (@⟨writer, id, hwriter⟩ | @⟨writer, back, value, id, hwriter, hvalue⟩)
    · exact ⟨id, writer, [0], hwriter, ⟨0, [0], [], rfl, Or.inl ⟨rfl, rfl, rfl⟩, rfl⟩, rfl⟩
    · exact ⟨id, writer, 1 :: back, hwriter,
        ⟨1, [1], back, rfl, Or.inr ⟨rfl, value, hvalue, rfl⟩, rfl⟩, rfl⟩

private theorem Record.exact_read : Reader.Exact read (Laid Number) := by
  have hread : read = Varint.readSlice >>= fun key =>
      (Varint.read >>= fun n => Reader.times n.toNat Version.read) >>= fun versions =>
        Pure.pure ⟨key, versions⟩ := by
    simp only [read, bind_assoc]
  rw [hread]
  refine (Varint.exact_readSlice.bind fun key =>
    (Version.exact_read.counted).map fun versions => (⟨key, versions⟩ : Record)).congr
      fun b r => ⟨?_, ?_⟩
  · rintro ⟨key, front, back, hkey, ⟨versions, hversions, rfl⟩, rfl⟩
    exact .intro hkey hversions
  · rintro ⟨hkey, hversions⟩
    exact ⟨_, _, _, hkey, ⟨_, hversions, rfl⟩, rfl⟩

namespace Image

private theorem exact_readRecords : Reader.Exact readRecords (Laid Number) :=
  Record.exact_read.counted

theorem ofPayload?_eq_some_iff {data : Bytes} {records : List Record} :
    ofPayload? data = some records ↔ Laid Number data records :=
  exact_readRecords.all?_eq_some_iff

theorem Laid.unique {data more : Bytes} {records others : List Record}
    (h : Laid Number data records) (k : Laid Number (data ++ more) others) :
    more = [] ∧ others = records := by
  have heq : data ++ more = data ++ more ++ [] := (List.append_nil _).symm
  obtain ⟨-, hrecords, hmore⟩ := exact_readRecords.append_inj h k heq
  exact ⟨hmore, hrecords.symm⟩

end Image

/-! Writing again what was read. -/

private theorem Varint.Number.encode {b : Bytes} {n : Nat} (h : Number b n) :
    Shortest (encode n.toUInt64) n ∧ (Varint.encode n.toUInt64).length ≤ b.length := by
  have hspells := spells_encode n.toUInt64
  rw [toNat_toUInt64 h.2.2] at hspells
  have hleast : ∀ other, Spells other n → (Varint.encode n.toUInt64).length ≤ other.length := by
    intro other hother
    rw [Varint.encode, toNat_toUInt64 h.2.2]
    exact hother.length_spell_le maxGroups
  exact ⟨⟨⟨hspells, length_encode_le _, h.2.2⟩, hleast⟩, hleast b h.1⟩

private theorem Varint.Shortest.eq_encode {b : Bytes} {n : Nat} (h : Shortest b n) :
    b = encode n.toUInt64 := by
  obtain ⟨⟨hbest, -⟩, hle⟩ := h.1.encode
  exact h.1.1.eq_of_length_eq hbest.1 (Nat.le_antisymm (h.2 _ hbest.1) hle)

/-- Whatever numbers an element was read with, it is written with the shortest ones. -/
def Rewrites {α : Type} (part : (Bytes → Nat → Prop) → Bytes → α → Prop) (write : α → Bytes) :
    Prop :=
  ∀ x b, (part Number b x → part Shortest (write x) x ∧ (write x).length ≤ b.length) ∧
    (part Shortest b x → b = write x)

private theorem rewrites_prefixed : Rewrites Prefixed Varint.encodeSlice := by
  intro x b
  constructor
  · rintro ⟨h⟩
    refine ⟨.intro h.encode.1, ?_⟩
    rw [Varint.encodeSlice, List.length_append, List.length_append]
    exact Nat.add_le_add_right h.encode.2 _
  · rintro ⟨h⟩
    rw [h.eq_encode, Varint.encodeSlice]

section Rewrites

variable {α : Type} {part : (Bytes → Nat → Prop) → Bytes → α → Prop} {write : α → Bytes}

private theorem Rewrites.joined (h : Rewrites part write) :
    Rewrites (fun number => Joined (part number)) (List.flatMap write) := by
  intro xs b
  constructor
  · intro hs
    induction hs with
    | nil => exact ⟨.nil, Nat.le_refl 0⟩
    | @cons front rest x xs hx _ ih =>
      obtain ⟨hbest, hle⟩ := (h x front).1 hx
      refine ⟨.cons hbest ih.1, ?_⟩
      rw [List.flatMap_cons, List.length_append, List.length_append]
      exact Nat.add_le_add hle ih.2
  · intro hs
    induction hs with
    | nil => rfl
    | @cons front rest x xs hx _ ih => rw [List.flatMap_cons, (h x front).2 hx, ih]

private theorem Rewrites.counted (h : Rewrites part write) :
    Rewrites (fun number => Counted number (part number)) fun xs =>
      Varint.encode xs.length.toUInt64 ++ xs.flatMap write := by
  intro xs b
  constructor
  · rintro ⟨hn, hs⟩
    obtain ⟨hbest, hle⟩ := (h.joined xs _).1 hs
    refine ⟨.intro hn.encode.1 hbest, ?_⟩
    rw [List.length_append, List.length_append]
    exact Nat.add_le_add hn.encode.2 hle
  · rintro ⟨hn, hs⟩
    rw [hn.eq_encode, (h.joined xs _).2 hs]

end Rewrites

private theorem Version.rewrites : Rewrites Laid encode := by
  intro v b
  have hwriter (id : TxnId) : id.toNat.toUInt64 = id := UInt64.ofNat_toNat
  constructor
  · rintro (@⟨writer, id, h⟩ | @⟨writer, front, value, id, h, hvalue⟩)
    · have hbest := h.encode
      rw [hwriter] at hbest
      refine ⟨.removal hbest.1, ?_⟩
      rw [encode, List.length_append, List.length_append]
      exact Nat.add_le_add_right hbest.2 _
    · have hbest := h.encode
      rw [hwriter] at hbest
      obtain ⟨hslice, hle⟩ := (rewrites_prefixed value front).1 hvalue
      refine ⟨.value hbest.1 hslice, ?_⟩
      rw [encode, List.length_append, List.length_append, List.length_cons, List.length_cons]
      exact Nat.add_le_add hbest.2 (Nat.succ_le_succ hle)
  · rintro (@⟨writer, id, h⟩ | @⟨writer, front, value, id, h, hvalue⟩)
    · rw [h.eq_encode, hwriter, encode]
    · rw [h.eq_encode, hwriter, (rewrites_prefixed value front).2 hvalue, encode]

private theorem Record.rewrites : Rewrites Laid encode := by
  intro r b
  constructor
  · rintro ⟨hkey, hversions⟩
    obtain ⟨hslice, hle⟩ := (rewrites_prefixed _ _).1 hkey
    obtain ⟨hcounted, hle'⟩ := (Version.rewrites.counted _ _).1 hversions
    rw [encode, List.append_assoc]
    refine ⟨.intro hslice hcounted, ?_⟩
    simpa only [List.length_append] using Nat.add_le_add hle hle'
  · rintro ⟨hkey, hversions⟩
    rw [(rewrites_prefixed _ _).2 hkey, (Version.rewrites.counted _ _).2 hversions, encode,
      List.append_assoc]

private theorem Image.rewrites : Rewrites Laid payload :=
  Record.rewrites.counted

namespace Image

variable {codec : Codec} {verify : Bool} {image data check : Bytes} {records : List Record}

/-- An image that stands for some records as it is: a payload laid out for them, the tag that says that
it is plain, and a check, which is that of payload and tag if it is compared. -/
def Accepted (verify : Bool) (image : Bytes) (records : List Record) : Prop :=
  ∃ data check, image = data ++ Compression.plain.tag :: check ∧ check.length = 4 ∧
    (verify = true →
      Bytes.ofLittleEndian check = (Checksum.masked data Compression.plain.tag).toNat) ∧
    Laid Number data records

/-- The image is too short for a trailer, or its trailer says that the payload is plain. -/
def IsPlain (image : Bytes) : Prop :=
  image.length < trailerLength ∨ image[image.length - trailerLength]? = some Compression.plain.tag

theorem decode_plain (h : check.length = 4) :
    decode codec verify (data ++ Compression.plain.tag :: check) =
      if verify = true ∧
          Bytes.ofLittleEndian check ≠ (Checksum.masked data Compression.plain.tag).toNat then
        .error .checksum
      else (ofPayload? data).elim (.error .malformed) .ok := by
  rw [decode, split?_append h]
  cases hdata : ofPayload? data <;>
    simp [Compression.ofTag?_tag, Compression.decompress?, hdata, ← verify_ofLittleEndian_iff h]

private theorem IsPlain.cases (h : IsPlain image) : image.length < trailerLength ∨
    ∃ data check, image = data ++ Compression.plain.tag :: check ∧ check.length = 4 := by
  rcases Nat.lt_or_ge image.length trailerLength with hshort | hlong
  · exact Or.inl hshort
  · obtain ⟨data, tag, check, rfl, hcheck⟩ := exists_parts hlong
    have htag := h.resolve_left (Nat.not_lt_of_le hlong)
    have hat : (data ++ tag :: check).length - trailerLength = data.length := by
      simp [trailerLength, hcheck]
    rw [hat, List.getElem?_append_right (Nat.le_refl _), Nat.sub_self] at htag
    obtain rfl : tag = Compression.plain.tag := Option.some.inj htag
    exact Or.inr ⟨data, check, rfl, hcheck⟩

private theorem decode_short (h : image.length < trailerLength) :
    decode codec verify image = .error .tooShort := by
  rw [decode, split?, if_neg (Nat.not_le_of_lt h)]

theorem IsPlain.decode_eq_ok_iff (h : IsPlain image) :
    decode codec verify image = .ok records ↔ Accepted verify image records := by
  have hlength {data check : Bytes} {tag : UInt8} (hcheck : check.length = 4) :
      ¬ (data ++ tag :: check).length < trailerLength := by
    simp [trailerLength, hcheck]
  constructor
  · intro hdecode
    obtain hshort | ⟨data, check, rfl, hcheck⟩ := h.cases
    · rw [decode_short hshort] at hdecode
      cases hdecode
    · rw [decode_plain hcheck] at hdecode
      split at hdecode
      · cases hdecode
      next hpasses =>
        refine ⟨data, check, rfl, hcheck, fun hverify => ?_, ?_⟩
        · exact Decidable.not_not.1 fun hno => hpasses ⟨hverify, hno⟩
        · rw [← ofPayload?_eq_some_iff]
          cases hdata : ofPayload? data with
          | none =>
            rw [hdata] at hdecode
            cases hdecode
          | some others =>
            rw [hdata] at hdecode
            rw [Except.ok.inj hdecode]
  · rintro ⟨data, check, rfl, hcheck, hpasses, hlaid⟩
    rw [decode_plain hcheck, if_neg (fun hno => hno.2 (hpasses hno.1)),
      ofPayload?_eq_some_iff.2 hlaid]
    rfl

theorem IsPlain.corrupt (h : IsPlain image) {fault : ImageFault}
    (hdecode : decode codec verify image = .error fault) :
    ∃ detail, Error.ofImage fault = .corruption detail := by
  obtain hshort | ⟨data, check, rfl, hcheck⟩ := h.cases
  · rw [decode_short hshort] at hdecode
    cases hdecode
    exact ⟨_, rfl⟩
  · rw [decode_plain hcheck] at hdecode
    split at hdecode
    · cases hdecode
      exact ⟨_, rfl⟩
    · cases hdata : ofPayload? data with
      | none =>
        rw [hdata] at hdecode
        cases hdecode
        exact ⟨_, rfl⟩
      | some others =>
        rw [hdata] at hdecode
        cases hdecode

end Image

namespace Page

theorem reload?_eq_ok_iff {codec : Codec} {verify : Bool} {first image : Bytes}
    {records : List Record} :
    reload? codec verify ⟨first, .evicted image⟩ = .ok (some ⟨first, .resident records⟩) ↔
      Image.decode codec verify image = .ok records := by
  cases hdecode : Image.decode codec verify image <;>
    simp [reload?, hdecode, bind, Except.bind, pure, Except.pure]

/-- From an image that is plain, or too short to say so, a page comes back with just the records that the
grammar has it stand for. From any other image it does not come back at all: the image is corrupt, and a
store that tries to load the page stays as it is. A payload stands for one list of records and goes on as
no other payload. Evicted again, its records make a payload with the shortest numbers, which is no longer,
and the same if it had the shortest numbers before. -/
theorem reload_grammar (codec : Codec) (verify : Bool) (first image : Bytes)
    (plain : Image.IsPlain image) :
    (∀ records, reload? codec verify ⟨first, .evicted image⟩ = .ok (some ⟨first, .resident records⟩) ↔
      Image.Accepted verify image records) ∧
    ((∀ records, ¬ Image.Accepted verify image records) →
      ∃ fault detail, reload? codec verify ⟨first, .evicted image⟩ = .error fault ∧
        Error.ofImage fault = .corruption detail ∧
        ∀ (s : Store) (i : Nat), s.codec = codec → s.paging.verify = verify →
          s.pages[i]? = some ⟨first, .evicted image⟩ → (Store.load i).run s = .error fault s) ∧
    ∀ data records, Image.Laid Number data records →
      (∀ more others, Image.Laid Number (data ++ more) others → more = [] ∧ others = records) ∧
      ∃ again, evict? codec .plain ⟨first, .resident records⟩ =
          .ok (some ⟨first, .evicted (Image.stamp again Compression.plain.tag)⟩) ∧
        again.length ≤ data.length ∧ Image.Laid Shortest again records ∧
        (Image.Laid Shortest data records → again = data) := by
  refine ⟨fun records => reload?_eq_ok_iff.trans plain.decode_eq_ok_iff, fun hnone => ?_,
    fun data records hlaid => ⟨fun more others hmore => hlaid.unique hmore, ?_⟩⟩
  · cases hdecode : Image.decode codec verify image with
    | ok records => exact absurd (plain.decode_eq_ok_iff.1 hdecode) (hnone records)
    | error fault =>
      obtain ⟨detail, hdetail⟩ := plain.corrupt hdecode
      refine ⟨fault, detail, reload?_eq_error_iff.2 hdecode, hdetail, fun s i hcodec hverify hpage => ?_⟩
      apply Store.load_of_error hpage
      rw [hcodec, hverify]
      exact reload?_eq_error_iff.2 hdecode
  · obtain ⟨hbest, hle⟩ := (Image.rewrites records data).1 hlaid
    exact ⟨Image.payload records, rfl, hle, hbest, fun h => ((Image.rewrites records data).2 h).symm⟩

/-- A payload whose count of records is spelled in two groups, and the same payload with a byte more. -/
theorem reload_grammar_padded :
    let data : Bytes := [129, 0, 1, 97, 2, 7, 0, 3, 1, 1, 120]
    let records : List Record := [⟨[97], [⟨7, none⟩, ⟨3, some [120]⟩]⟩]
    let image := Image.stamp data Compression.plain.tag
    let longer := Image.stamp (data ++ [0]) Compression.plain.tag
    Image.IsPlain image ∧ Image.IsPlain longer ∧
      reload? Snappy.codec true ⟨[97], .evicted image⟩ = .ok (some ⟨[97], .resident records⟩) ∧
      (∀ others, reload? Snappy.codec true ⟨[97], .evicted longer⟩ ≠
        .ok (some ⟨[97], .resident others⟩)) ∧
      ∃ again, evict? Snappy.codec .plain ⟨[97], .resident records⟩ =
        .ok (some ⟨[97], .evicted (Image.stamp again Compression.plain.tag)⟩) ∧
        again.length ≤ data.length := by
  intro data records image longer
  have hplain : Image.IsPlain image := Or.inr (by decide +kernel)
  have hlonger : Image.IsPlain longer := Or.inr (by decide +kernel)
  have hlaid : Image.Laid Number data records := Image.ofPayload?_eq_some_iff.1 (by decide +kernel)
  have hcheck (data : Bytes) : Bytes.ofLittleEndian
      (Bytes.littleEndian 4 (Checksum.masked data Compression.plain.tag).toNat) =
        (Checksum.masked data Compression.plain.tag).toNat :=
    Bytes.ofLittleEndian_littleEndian 4 _ (Checksum.masked data _).toNat_lt
  obtain ⟨hreload, -, hall⟩ := reload_grammar Snappy.codec true [97] image hplain
  obtain ⟨hunique, again, hevict, hle, -⟩ := hall data records hlaid
  refine ⟨hplain, hlonger, (hreload records).2 ⟨data, _, rfl, rfl, fun _ => hcheck data, hlaid⟩,
    fun others hothers => ?_, again, hevict, hle⟩
  obtain ⟨data', check, heq, hlen, -, hlaid'⟩ :=
    ((reload_grammar Snappy.codec true [97] longer hlonger).1 others).1 hothers
  obtain ⟨rfl, -⟩ := List.append_inj' heq (congrArg Nat.succ hlen.symm)
  exact absurd (hunique [0] others hlaid').1 (List.cons_ne_nil 0 [])

end Page

end Keyspan
