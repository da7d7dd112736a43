import Keyspan.Proofs.Page.Image

set_option autoImplicit false
set_option relaxedAutoImplicit false

namespace Keyspan.Page

variable (codec : Codec)

/-- The records of a page, in memory or not. -/
def contents (p : Page) : List Record :=
  match p.body with
  | .resident records => records
  | .evicted image => (Image.decode codec false image).toOption.getD []

/-- The image of the page, if it has one, stands for its contents. -/
def Sound (p : Page) : Prop :=
  match p.body with
  | .resident _ => True
  | .evicted image => ∀ verify, Image.decode codec verify image = .ok (p.contents codec)

/-- The page with its contents in memory. -/
def settled (p : Page) : Page :=
  { p with body := .resident (p.contents codec) }

variable {codec}

theorem sound_settled (p : Page) : (p.settled codec).Sound codec := trivial

theorem settled_eq_iff {p q : Page} : p.settled codec = q.settled codec ↔
    p.first = q.first ∧ p.contents codec = q.contents codec := by
  simp [settled]

/-- A sound page comes back with its contents, unless it never was away. -/
theorem reload?_cases (verify : Bool) {p : Page} (h : p.Sound codec) :
    (p.reload? codec verify = .ok none ∧ p.records? = some (p.contents codec)) ∨
      p.reload? codec verify = .ok (some (p.settled codec)) := by
  obtain ⟨first, body⟩ := p
  cases body with
  | resident records => exact Or.inl ⟨rfl, rfl⟩
  | evicted image =>
    have hd : Image.decode codec verify image = .ok _ := h verify
    right
    simp only [reload?, hd]
    rfl

/-- A page that memory can hold is evicted soundly, was evicted before, or is too large for its
compression. -/
theorem evict?_cases (c : Compression) {p : Page}
    (hm : (Image.payload (p.contents codec)).length < 2 ^ 64) :
    (p.evict? codec c = .ok none ∧ p.isResident = false) ∨
      (∃ q, p.evict? codec c = .ok (some q) ∧ p.isResident = true ∧ q.isResident = false ∧
        q.Sound codec ∧ q.settled codec = p.settled codec) ∨
      (p.evict? codec c = .error .compression ∧
        c.limit codec ≤ (Image.payload (p.contents codec)).length) := by
  obtain ⟨first, body⟩ := p
  cases body with
  | evicted image => exact Or.inl ⟨rfl, rfl⟩
  | resident records =>
    right
    cases himage : Image.encode codec c records with
    | ok image =>
      have hd : ∀ verify, Image.decode codec verify image = .ok records := fun verify =>
        Image.decode_encode verify himage hm
      have hc : contents codec ⟨first, .evicted image⟩ = records := by
        simp [contents, hd false, Except.toOption]
      refine Or.inl ⟨⟨first, .evicted image⟩, ?_, rfl, rfl, ?_, ?_⟩
      · simp only [evict?, himage]
        rfl
      · simpa only [Sound, hc] using hd
      · simp only [settled, hc]
        rfl
    | error fault =>
      refine Or.inr ⟨?_, ?_⟩
      · rw [Image.encode] at himage
        split at himage
        · cases himage
        · rename_i hnone
          simp only [evict?, Image.encode, hnone]
          rfl
      · refine Nat.le_of_not_lt fun hlt => ?_
        obtain ⟨data, hdata⟩ := c.exists_compress? hlt
        rw [Image.encode, show c.compress? codec (Image.payload records) = some data from hdata]
          at himage
        cases himage

end Keyspan.Page
