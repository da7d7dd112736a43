import Mathlib.Data.List.Forall2
import Mathlib.Data.List.TakeDrop
import Keyspan.Bound.Request
import Keyspan.Proofs.Compression.Literal
import Keyspan.Proofs.Cursor.Change
import Keyspan.Proofs.Text.Trim

/-!
The language of bound configurations.

A text is a list of items, and what an item means is a matter of its name and its value. The text parses
if each of its items means a setting and the settings together name a side or clear; and then it says
what the typed call with the same settings says.
-/

set_option autoImplicit false
set_option relaxedAutoImplicit false

namespace Keyspan

namespace Setting

def name : Setting → List Char
  | side _ => "bound".toList
  | action _ => "action".toList
  | inclusive _ => "inclusive".toList

def side? : Setting → Option Side
  | side s => some s
  | _ => none

def action? : Setting → Option BoundAction
  | action a => some a
  | _ => none

def inclusive? : Setting → Option Bool
  | inclusive b => some b
  | _ => none

end Setting

/-- What some settings come to: of each kind the last one holds. Without any there is no side, the action
is to set, and the bound is inclusive. -/
def BoundRequest.of (settings : List Setting) : BoundRequest where
  side := (settings.filterMap Setting.side?).getLast?
  action := (settings.filterMap Setting.action?).getLast?.getD .set
  inclusive := (settings.filterMap Setting.inclusive?).getLast?.getD true

section Forall₂

variable {α β : Type} {R : α → β → Prop} {l : List α}

private theorem exists_forall₂ (h : ∀ x ∈ l, ∃ y, R x y) : ∃ m, List.Forall₂ R l m := by
  induction l with
  | nil => exact ⟨[], .nil⟩
  | cons x l ih =>
    obtain ⟨y, hy⟩ := h x List.mem_cons_self
    obtain ⟨m, hm⟩ := ih fun z hz => h z (List.mem_cons_of_mem x hz)
    exact ⟨y :: m, .cons hy hm⟩

private theorem exists_of_forall₂ {m : List β} (h : List.Forall₂ R l m) : ∀ x ∈ l, ∃ y, R x y := by
  induction h with
  | nil => exact nofun
  | cons hxy _ ih =>
    intro x hx
    rcases List.mem_cons.1 hx with rfl | hx
    · exact ⟨_, hxy⟩
    · exact ih x hx

end Forall₂

/-- A name and a value, as an item of a configuration text spells them. -/
structure Item where
  name : List Char
  value : List Char
  deriving DecidableEq, Repr

namespace Item

/-- How a trimmed item spells a name and a value: around its first equals sign, or as a name alone. -/
inductive Spells : List Char → Item → Prop
  | pair {front back name value : List Char} (first : '=' ∉ front) (hname : Text.Trims front name)
    (hvalue : Text.Trims back value) : Spells (front ++ '=' :: back) ⟨name, value⟩
  | bare {word : List Char} (none : '=' ∉ word) : Spells word ⟨word, "true".toList⟩

/-- The items of a text, in order: what stands between its commas, trimmed, unless that is blank. -/
def Lists (text : List Char) (items : List Item) : Prop :=
  ∃ pieces words : List (List Char), [','].intercalate pieces = text ∧ pieces ≠ [] ∧
    (∀ piece ∈ pieces, ',' ∉ piece) ∧ List.Forall₂ Text.Trims pieces words ∧
    List.Forall₂ Spells (words.filter fun word => !word.isEmpty) items

def meanings : List (Item × Setting) :=
  [(⟨"bound".toList, "lower".toList⟩, .side .lower),
    (⟨"bound".toList, "upper".toList⟩, .side .upper),
    (⟨"action".toList, "set".toList⟩, .action .set),
    (⟨"action".toList, "clear".toList⟩, .action .clear),
    (⟨"inclusive".toList, "true".toList⟩, .inclusive true),
    (⟨"inclusive".toList, "1".toList⟩, .inclusive true),
    (⟨"inclusive".toList, "false".toList⟩, .inclusive false),
    (⟨"inclusive".toList, "0".toList⟩, .inclusive false)]

def Means (item : Item) (setting : Setting) : Prop :=
  (item, setting) ∈ meanings

/-- The names that there are. -/
def names : List (List Char) :=
  ["bound".toList, "action".toList, "inclusive".toList]

/-- Why an item means nothing: its value is not one of those its name takes, or there is no such
name. -/
inductive Faulty (item : Item) : ConfigFault → Prop
  | value (known : item.name ∈ names) (bad : ∀ setting, ¬ item.Means setting) :
    Faulty item (.badValue (String.ofList item.name) (String.ofList item.value))
  | name (unknown : item.name ∉ names) : Faulty item (.unknownName (String.ofList item.name))

def FirstFaulty (items : List Item) (fault : ConfigFault) : Prop :=
  ∃ front item back, items = front ++ item :: back ∧
    (∀ x ∈ front, ∃ setting, x.Means setting) ∧ item.Faulty fault

variable {word : List Char} {item : Item} {setting : Setting} {fault : ConfigFault}

private theorem Spells.halves (h : Spells word item) :
    Setting.halves word = (item.name, item.value) := by
  rw [Setting.halves, List.span_eq_takeWhile_dropWhile]
  cases h with
  | @pair front back name value first hname hvalue =>
    have hfront : ∀ c ∈ front, decide (c ≠ '=') = true := fun c hc =>
      decide_eq_true fun he => first (he ▸ hc)
    dsimp only
    rw [List.takeWhile_append_of_pos hfront, List.dropWhile_append_of_pos hfront,
      List.takeWhile_cons_of_neg (by simp), List.dropWhile_cons_of_neg (by simp), List.append_nil]
    exact congrArg₂ Prod.mk hname.eq hvalue.eq
  | bare none =>
    have hall : ∀ c ∈ word, decide (c ≠ '=') = true := fun c hc =>
      decide_eq_true fun he => none (he ▸ hc)
    rw [List.dropWhile_eq_nil_iff.2 hall]

theorem exists_spells (word : List Char) : ∃ item, Spells word item := by
  by_cases h : '=' ∈ word
  · obtain ⟨front, back, rfl, hfirst⟩ := List.eq_append_cons_of_mem h
    exact ⟨_, .pair hfirst (Text.trims_trim front) (Text.trims_trim back)⟩
  · exact ⟨_, .bare h⟩

private theorem Spells.unique {other : Item} (h : Spells word item) (k : Spells word other) :
    other = item := by
  have hhalves := k.halves.symm.trans h.halves
  obtain ⟨hname, hvalue⟩ := Prod.mk.inj hhalves
  cases other
  cases item
  exact congrArg₂ Item.mk hname hvalue

private theorem Spells.parse_of_means (h : Spells word item) (hmeans : item.Means setting) :
    Setting.parse word = .ok setting := by
  rw [Setting.parse, h.halves]
  simp only [Means, meanings, List.mem_cons, Prod.mk.injEq, List.not_mem_nil, or_false] at hmeans
  rcases hmeans with ⟨rfl, rfl⟩ | ⟨rfl, rfl⟩ | ⟨rfl, rfl⟩ | ⟨rfl, rfl⟩ | ⟨rfl, rfl⟩ | ⟨rfl, rfl⟩ |
    ⟨rfl, rfl⟩ | ⟨rfl, rfl⟩ <;> rfl

private theorem of_either_eq_ok {P Q : Prop} [Decidable P] [Decidable Q] {x y : Setting}
    (h : (if P then .ok x else if Q then .ok y else .error fault : Except ConfigFault Setting) =
      .ok setting) : P ∧ setting = x ∨ Q ∧ setting = y := by
  split at h
  next hp => exact Or.inl ⟨hp, (Except.ok.inj h).symm⟩
  next =>
    split at h
    next hq => exact Or.inr ⟨hq, (Except.ok.inj h).symm⟩
    next => cases h

private theorem of_either_eq_error {P Q : Prop} [Decidable P] [Decidable Q] {x y : Setting}
    {bad : ConfigFault}
    (h : (if P then .ok x else if Q then .ok y else .error bad : Except ConfigFault Setting) =
      .error fault) : bad = fault := by
  split at h
  · cases h
  · split at h
    · cases h
    · exact Except.error.inj h

private theorem Spells.means_of_parse (h : Spells word item)
    (hparse : Setting.parse word = .ok setting) :
    item.Means setting := by
  obtain ⟨name, value⟩ := item
  rw [Setting.parse, h.halves] at hparse
  dsimp only at hparse
  split at hparse
  next hname =>
    subst hname
    rcases of_either_eq_ok hparse with ⟨rfl, rfl⟩ | ⟨rfl, rfl⟩
    · exact List.mem_of_getElem? (i := 0) rfl
    · exact List.mem_of_getElem? (i := 1) rfl
  next =>
    split at hparse
    next hname =>
      subst hname
      rcases of_either_eq_ok hparse with ⟨rfl, rfl⟩ | ⟨rfl, rfl⟩
      · exact List.mem_of_getElem? (i := 2) rfl
      · exact List.mem_of_getElem? (i := 3) rfl
    next =>
      split at hparse
      next hname =>
        subst hname
        rcases of_either_eq_ok hparse with ⟨rfl | rfl, rfl⟩ | ⟨rfl | rfl, rfl⟩
        · exact List.mem_of_getElem? (i := 4) rfl
        · exact List.mem_of_getElem? (i := 5) rfl
        · exact List.mem_of_getElem? (i := 6) rfl
        · exact List.mem_of_getElem? (i := 7) rfl
      next => cases hparse

private theorem Spells.faulty_of_parse (h : Spells word item)
    (hparse : Setting.parse word = .error fault) :
    item.Faulty fault := by
  have hbad : ∀ setting, ¬ item.Means setting := by
    intro setting hmeans
    rw [h.parse_of_means hmeans] at hparse
    cases hparse
  rw [Setting.parse, h.halves] at hparse
  dsimp only at hparse
  split at hparse
  next hname => exact of_either_eq_error hparse ▸ .value (by simp [names, hname]) hbad
  next hname =>
    split at hparse
    next hname => exact of_either_eq_error hparse ▸ .value (by simp [names, hname]) hbad
    next hname' =>
      split at hparse
      next hname => exact of_either_eq_error hparse ▸ .value (by simp [names, hname]) hbad
      next hname'' =>
        refine Except.error.inj hparse ▸ .name fun hknown => ?_
        simp only [names, List.mem_cons, List.not_mem_nil, or_false] at hknown
        exact hknown.elim hname fun hrest => hrest.elim hname' hname''

private theorem Faulty.unique {other : ConfigFault} (h : item.Faulty fault) (k : item.Faulty other) :
    other = fault := by
  cases h with
  | value known _ =>
    cases k with
    | value _ _ => rfl
    | name unknown => exact absurd known unknown
  | name unknown =>
    cases k with
    | value known _ => exact absurd known unknown
    | name _ => rfl

theorem Means.name_eq (h : item.Means setting) : item.name = setting.name := by
  have hall : ∀ m ∈ meanings, m.1.name = m.2.name := by decide
  exact hall _ h

private theorem Means.known (h : item.Means setting) : item.name ∈ names := by
  rw [h.name_eq]
  cases setting with
  | side s => exact List.mem_of_getElem? (i := 0) rfl
  | action a => exact List.mem_of_getElem? (i := 1) rfl
  | inclusive b => exact List.mem_of_getElem? (i := 2) rfl

private theorem Means.unique {other : Setting} (h : item.Means setting) (k : item.Means other) :
    other = setting := by
  have hall : ∀ m ∈ meanings, ∀ n ∈ meanings, m.1 = n.1 → n.2 = m.2 := by decide
  exact hall _ h _ k rfl

theorem Spells.parse_eq_error_iff (h : Spells word item) :
    Setting.parse word = .error fault ↔ item.Faulty fault := by
  refine ⟨h.faulty_of_parse, fun hfaulty => ?_⟩
  cases hparse : Setting.parse word with
  | error other => exact congrArg Except.error (hfaulty.unique (h.faulty_of_parse hparse))
  | ok setting =>
    have hmeans := h.means_of_parse hparse
    cases hfaulty with
    | value _ bad => exact absurd hmeans (bad setting)
    | name unknown => exact absurd hmeans.known unknown

variable {words : List (List Char)} {items others : List Item} {settings : List Setting}

private theorem parseAll_eq_ok_iff (h : List.Forall₂ Spells words items) :
    Setting.parseAll words = .ok settings ↔ List.Forall₂ Means items settings := by
  induction h generalizing settings with
  | nil =>
    rw [List.forall₂_nil_left_iff]
    exact ⟨fun h => (Except.ok.inj h).symm, fun h => congrArg Except.ok h.symm⟩
  | @cons word item words items hword _ ih =>
    rw [Setting.parseAll]
    cases hparse : Setting.parse word with
    | error fault =>
      refine ⟨nofun, fun h => ?_⟩
      cases h with
      | cons hmeans _ =>
        rw [hword.parse_of_means hmeans] at hparse
        cases hparse
    | ok setting =>
      have hmeans := hword.means_of_parse hparse
      cases hrest : Setting.parseAll words with
      | error fault =>
        refine ⟨nofun, fun h => ?_⟩
        cases h with
        | cons _ htail =>
          rw [ih.2 htail] at hrest
          cases hrest
      | ok tail =>
        constructor
        · intro h
          obtain rfl := Except.ok.inj h
          exact .cons hmeans (ih.1 hrest)
        · intro h
          cases h with
          | cons hhead htail =>
            obtain rfl := hmeans.unique hhead
            obtain rfl := Except.ok.inj (hrest.symm.trans (ih.2 htail))
            rfl

private theorem firstFaulty_cons : FirstFaulty (item :: items) fault ↔
    item.Faulty fault ∨ (∃ setting, item.Means setting) ∧ FirstFaulty items fault := by
  constructor
  · rintro ⟨front, x, back, hitems, hfront, hx⟩
    cases front with
    | nil =>
      obtain ⟨rfl, -⟩ := List.cons.inj hitems
      exact Or.inl hx
    | cons y front =>
      obtain ⟨rfl, rfl⟩ := List.cons.inj hitems
      exact Or.inr ⟨hfront item List.mem_cons_self, front, x, back, rfl,
        fun z hz => hfront z (List.mem_cons_of_mem _ hz), hx⟩
  · rintro (hitem | ⟨hmeans, front, x, back, rfl, hfront, hx⟩)
    · exact ⟨[], item, items, rfl, nofun, hitem⟩
    · refine ⟨item :: front, x, back, rfl, fun z hz => ?_, hx⟩
      rcases List.mem_cons.1 hz with rfl | hz
      · exact hmeans
      · exact hfront z hz

private theorem parseAll_eq_error_iff (h : List.Forall₂ Spells words items) :
    Setting.parseAll words = .error fault ↔ FirstFaulty items fault := by
  induction h with
  | nil =>
    refine ⟨nofun, ?_⟩
    rintro ⟨front, x, back, hnil, -⟩
    exact absurd hnil.symm (by simp)
  | @cons word item words items hword _ ih =>
    rw [firstFaulty_cons, ← hword.parse_eq_error_iff, ← ih, Setting.parseAll]
    cases hparse : Setting.parse word with
    | error other =>
      have hno : ¬ ∃ setting, item.Means setting := by
        rintro ⟨setting, hmeans⟩
        rw [hword.parse_of_means hmeans] at hparse
        cases hparse
      show (Except.error other : Except ConfigFault (List Setting)) = .error fault ↔ _
      constructor
      · exact fun h => Or.inl (congrArg Except.error (Except.error.inj h))
      · rintro (h | ⟨hmeans, -⟩)
        · exact congrArg Except.error (Except.error.inj h)
        · exact absurd hmeans hno
    | ok setting =>
      have hmeans := hword.means_of_parse hparse
      cases Setting.parseAll words with
      | error other =>
        constructor
        · exact fun h => Or.inr ⟨⟨setting, hmeans⟩, h⟩
        · rintro (h | ⟨-, h⟩)
          · cases h
          · exact h
      | ok tail =>
        constructor
        · nofun
        · rintro (h | ⟨-, h⟩) <;> cases h

theorem comma_not_mem_of_mem_splitOn {text piece : List Char} (h : piece ∈ text.splitOn ',') :
    ',' ∉ piece := by
  rw [List.splitOn_eq_splitOnP] at h
  induction text generalizing piece with
  | nil =>
    obtain rfl := List.mem_singleton.1 h
    exact List.not_mem_nil
  | cons c text ih =>
    rw [List.splitOnP_cons_eq_if_modifyHead] at h
    split at h
    next =>
      rcases List.mem_cons.1 h with rfl | h
      · exact List.not_mem_nil
      · exact ih h
    next hc =>
      obtain ⟨first, rest, hsplit⟩ := List.exists_cons_of_ne_nil
        (List.splitOnP_ne_nil (p := (· == ',')) text)
      rw [hsplit] at h ih
      rcases List.mem_cons.1 h with rfl | h
      · intro hmem
        rcases List.mem_cons.1 hmem with rfl | hmem
        · exact hc rfl
        · exact ih List.mem_cons_self hmem
      · exact ih (List.mem_cons_of_mem _ h)

private theorem trims_map (pieces : List (List Char)) :
    List.Forall₂ Text.Trims pieces (pieces.map Text.trim) :=
  List.forall₂_map_right_iff.2 (List.forall₂_same.2 fun piece _ => Text.trims_trim piece)

theorem lists_iff {text : String} :
    Lists text.toList items ↔ List.Forall₂ Spells (BoundRequest.items text.toList) items := by
  rw [BoundRequest.items]
  constructor
  · rintro ⟨pieces, words, htext, hne, hcomma, htrim, hspell⟩
    have hunique : Relator.RightUnique Text.Trims := fun _ _ _ h k => h.eq.symm.trans k.eq
    obtain rfl := hunique.forall₂ (trims_map pieces) htrim
    rw [← htext, List.splitOn_intercalate ',' hcomma hne]
    exact hspell
  · intro h
    exact ⟨text.toList.splitOn ',', _, List.intercalate_splitOn ',', List.splitOn_ne_nil _ _,
      fun piece => comma_not_mem_of_mem_splitOn, trims_map _, h⟩

theorem exists_lists (text : String) :
    ∃ items, Lists text.toList items ∧ ∀ others, Lists text.toList others → others = items := by
  have hunique : Relator.RightUnique Spells := fun _ _ _ h k => k.unique h
  obtain ⟨items, hitems⟩ :=
    exists_forall₂ (l := BoundRequest.items text.toList) fun word _ => exists_spells word
  exact ⟨items, lists_iff.2 hitems, fun others h => hunique.forall₂ (lists_iff.1 h) hitems⟩

end Item

namespace BoundRequest

variable {settings : List Setting} {r : BoundRequest} {items : List Item} {text : String}

private theorem of_concat (settings : List Setting) (setting : Setting) :
    of (settings ++ [setting]) = (of settings).apply setting := by
  simp only [of, List.filterMap_append]
  cases setting <;> simp [apply, Setting.side?, Setting.action?, Setting.inclusive?]

theorem foldl_apply (settings : List Setting) : settings.foldl apply {} = of settings := by
  suffices h : ∀ front, settings.foldl apply (of front) = of (front ++ settings) from h []
  induction settings with
  | nil =>
    intro front
    rw [List.append_nil]
    rfl
  | cons setting settings ih =>
    intro front
    rw [List.foldl_cons, ← of_concat, ih, List.append_assoc]
    rfl

/-- Settings that name a side, or of which the last one about the action says to clear. -/
def Complete (settings : List Setting) : Prop :=
  (settings.filterMap Setting.action?).getLast? = some .clear ∨ ∃ side, .side side ∈ settings

private theorem complete_iff :
    Complete settings ↔ ¬ ((of settings).action = .set ∧ (of settings).side = none) := by
  rw [not_and_or]
  refine or_congr ?_ ?_
  · show _ ↔ ¬ (settings.filterMap Setting.action?).getLast?.getD .set = .set
    cases (settings.filterMap Setting.action?).getLast? with
    | none => exact ⟨nofun, fun h => absurd rfl h⟩
    | some action => cases action <;> simp
  · show _ ↔ ¬ (settings.filterMap Setting.side?).getLast? = none
    rw [List.getLast?_eq_none_iff, List.filterMap_eq_nil_iff]
    constructor
    · rintro ⟨side, hside⟩ hnone
      cases hnone _ hside
    · intro hsome
      refine Classical.byContradiction fun hno => hsome fun setting hsetting => ?_
      cases setting with
      | side side => exact absurd ⟨side, hsetting⟩ hno
      | action _ => rfl
      | inclusive _ => rfl

private theorem parse_of_error {fault : ConfigFault}
    (h : Setting.parseAll (BoundRequest.items text.toList) = .error fault) :
    parse text = .error fault := by
  rw [parse, h]
  rfl

theorem parse_of_ok (h : Setting.parseAll (BoundRequest.items text.toList) = .ok settings) :
    parse text = .ok (of settings) ∧ Complete settings ∨
      parse text = .error .missingSide ∧ ¬ Complete settings := by
  have hrun : parse text =
      if (of settings).action = .set ∧ (of settings).side = none then .error .missingSide
      else .ok (of settings) := by
    rw [parse, h, ← foldl_apply]
    show (if _ then _ else _) = _
    rfl
  rw [hrun, complete_iff]
  split
  next hno => exact Or.inr ⟨rfl, fun hyes => hyes hno⟩
  next hyes => exact Or.inl ⟨rfl, hyes⟩

theorem parse_eq_ok_iff (h : Item.Lists text.toList items) : parse text = .ok r ↔
    ∃ settings, List.Forall₂ Item.Means items settings ∧ Complete settings ∧ r = of settings := by
  have hspelled := Item.lists_iff.1 h
  cases hall : Setting.parseAll (BoundRequest.items text.toList) with
  | error fault =>
    rw [parse_of_error hall]
    refine ⟨nofun, ?_⟩
    rintro ⟨settings, hmeans, -⟩
    rw [(Item.parseAll_eq_ok_iff hspelled).2 hmeans] at hall
    cases hall
  | ok settings =>
    have hmeans := (Item.parseAll_eq_ok_iff hspelled).1 hall
    have hunique : ∀ others, List.Forall₂ Item.Means items others → others = settings :=
      fun others hothers => Except.ok.inj
        (((Item.parseAll_eq_ok_iff hspelled).2 hothers).symm.trans hall)
    rcases parse_of_ok hall with ⟨hok, hcomplete⟩ | ⟨herror, hno⟩
    · rw [hok]
      constructor
      · exact fun hr => ⟨settings, hmeans, hcomplete, (Except.ok.inj hr).symm⟩
      · rintro ⟨others, hothers, -, rfl⟩
        rw [hunique others hothers]
    · rw [herror]
      refine ⟨nofun, ?_⟩
      rintro ⟨others, hothers, hcomplete, -⟩
      exact absurd (hunique others hothers ▸ hcomplete) hno

/-- A text that does not parse fails with the fault of its first item that means nothing, and for want
of a side if all of them mean something. -/
theorem parse_eq_error_iff (h : Item.Lists text.toList items) {fault : ConfigFault} :
    parse text = .error fault ↔ Item.FirstFaulty items fault ∨
      fault = .missingSide ∧ ∃ settings, List.Forall₂ Item.Means items settings ∧
        ¬ Complete settings := by
  have hspelled := Item.lists_iff.1 h
  rw [← Item.parseAll_eq_error_iff hspelled]
  simp only [← Item.parseAll_eq_ok_iff hspelled]
  cases hall : Setting.parseAll (BoundRequest.items text.toList) with
  | error other =>
    rw [parse_of_error hall]
    constructor
    · exact fun hr => Or.inl (congrArg Except.error (Except.error.inj hr))
    · rintro (hr | ⟨-, settings, hnone, -⟩)
      · exact congrArg Except.error (Except.error.inj hr)
      · cases hnone
  | ok settings =>
    rcases parse_of_ok hall with ⟨hok, hcomplete⟩ | ⟨herror, hno⟩
    · rw [hok]
      refine ⟨nofun, ?_⟩
      rintro (hr | ⟨-, others, hothers, hincomplete⟩)
      · cases hr
      · obtain rfl := Except.ok.inj hothers
        exact absurd hcomplete hincomplete
    · rw [herror]
      constructor
      · exact fun hr => Or.inr ⟨(Except.error.inj hr).symm, settings, rfl, hno⟩
      · rintro (hr | ⟨rfl, -⟩)
        · cases hr
        · rfl

theorem of_congr {others : List Setting} (h : ∀ name, others.filter (·.name = name) =
    settings.filter (·.name = name)) : of others = of settings := by
  have hkind : ∀ {α : Type} (f : Setting → Option α) (name : List Char),
      (∀ setting : Setting, setting.name ≠ name → f setting = none) →
      others.filterMap f = settings.filterMap f := by
    intro α f name hf
    have hfilter : ∀ l : List Setting, (l.filter (·.name = name)).filterMap f = l.filterMap f := by
      intro l
      rw [List.filterMap_filter]
      refine List.filterMap_congr fun setting _ => ?_
      by_cases hname : setting.name = name
      · simp [hname]
      · simp [hname, hf setting hname]
    rw [← hfilter, h, hfilter]
  have hside := hkind Setting.side? "bound".toList fun setting hname => by
    cases setting with
    | side _ => exact absurd rfl hname
    | _ => rfl
  have haction := hkind Setting.action? "action".toList fun setting hname => by
    cases setting with
    | action _ => exact absurd rfl hname
    | _ => rfl
  have hinclusive := hkind Setting.inclusive? "inclusive".toList fun setting hname => by
    cases setting with
    | inclusive _ => exact absurd rfl hname
    | _ => rfl
  rw [of, of, hside, haction, hinclusive]

theorem parse_congr {text' : String} {items' : List Item} (h : Item.Lists text.toList items)
    (h' : Item.Lists text'.toList items')
    (hsame : ∀ name, items'.filter (·.name = name) = items.filter (·.name = name))
    (hparse : parse text = .ok r) : parse text' = .ok r := by
  obtain ⟨settings, hmeans, hcomplete, rfl⟩ := (parse_eq_ok_iff h).1 hparse
  have hall : ∀ item ∈ items', ∃ setting, item.Means setting := by
    intro item hitem
    have hmem : item ∈ items'.filter (·.name = item.name) :=
      List.mem_filter.2 ⟨hitem, decide_eq_true rfl⟩
    rw [hsame] at hmem
    exact exists_of_forall₂ hmeans item (List.mem_filter.1 hmem).1
  obtain ⟨settings', hmeans'⟩ := exists_forall₂ hall
  have hunique : Relator.RightUnique Item.Means := fun _ _ _ h k => k.unique h
  have hnamed : ∀ name, settings'.filter (·.name = name) = settings.filter (·.name = name) := by
    intro name
    have hfilter : ∀ {l : List Item} {m : List Setting}, List.Forall₂ Item.Means l m →
        List.Forall₂ Item.Means (l.filter (·.name = name)) (m.filter (·.name = name)) :=
      fun hlm => List.rel_filter (fun item setting hitem => by
        show decide (item.name = name) = true ↔ decide (setting.name = name) = true
        rw [hitem.name_eq]) hlm
    have hkept := hfilter hmeans'
    rw [hsame] at hkept
    exact hunique.forall₂ hkept (hfilter hmeans)
  have hof := of_congr hnamed
  refine (parse_eq_ok_iff h').2 ⟨settings', hmeans', ?_, hof.symm⟩
  rw [complete_iff, hof, ← complete_iff]
  exact hcomplete

def call? (r : BoundRequest) (key : Key) : Option CursorCall :=
  match r.action with
  | .clear => some (.clearBound r.side)
  | .set => r.side.map fun side => .setBound side key r.inclusive

private theorem exists_call (h : parse text = .ok r) (key : Key) :
    ∃ call, r.call? key = some call := by
  obtain ⟨items, hitems, -⟩ := Item.exists_lists text
  obtain ⟨settings, -, hcomplete, rfl⟩ := (parse_eq_ok_iff hitems).1 h
  rw [complete_iff] at hcomplete
  rw [call?]
  cases haction : (of settings).action with
  | clear => exact ⟨_, rfl⟩
  | set =>
    cases hside : (of settings).side with
    | none => exact absurd ⟨haction, hside⟩ hcomplete
    | some side => exact ⟨_, rfl⟩

/-- Staging a key and then configuring a bound does what the typed call with that key does, but for the
key that stays staged. -/
theorem configureBound_eq (h : parse text = .ok r) {s : Scan} {key : Key}
    (hkey : s.table.format.check key = .ok ()) {call : CursorCall} (hcall : r.call? key = some call) :
    (CursorCall.setKey key).run s = (.done, { s with cursor.staged := some key.encode }) ∧
      (CursorCall.configureBound text).run { s with cursor.staged := some key.encode } =
        ((call.run s).1, { (call.run s).2 with cursor.staged := some key.encode }) := by
  have hpack : s.table.format.packKey key = .ok key.encode :=
    Format.packKey_eq_ok_iff.2 ⟨hkey, rfl⟩
  let staged : Cursor := { s.cursor with staged := some key.encode }
  have hconfigured : (CursorCall.configureBound text).run { s with cursor := staged } =
      CursorCall.change { s with cursor := staged } (Cursor.applyBound s.table.format r) := by
    rw [CursorCall.run, Cursor.configureBound, h]
  refine ⟨?_, hconfigured.trans ?_⟩
  · rw [CursorCall.run, Cursor.setKey, hpack]
    rfl
  · rw [call?] at hcall
    rw [Cursor.applyBound]
    cases haction : r.action with
    | clear =>
      rw [haction] at hcall
      obtain rfl := Option.some.inj hcall
      rfl
    | set =>
      rw [haction] at hcall
      obtain ⟨side, hside, rfl⟩ := Option.map_eq_some_iff.1 hcall
      have htyped : Bounds.set s.table.format side key r.inclusive =
          Bounds.setPacked s.table.format side key.encode r.inclusive := by
        rw [Bounds.set, hpack]
      rw [hside, CursorCall.run]
      show CursorCall.change { s with cursor := staged } (Cursor.rebound _) =
        ((CursorCall.change s (Cursor.rebound _)).1, { (CursorCall.change s (Cursor.rebound _)).2 with
          cursor.staged := some key.encode })
      rw [CursorCall.change_rebound, CursorCall.change_rebound, htyped]
      cases (Bounds.setPacked s.table.format side key.encode r.inclusive).run s.cursor.bounds <;> rfl

/-- A text parses exactly if each of its items means a setting and these name a side or clear at last;
what it says is then what the last items of each name say, so that items of different names may change
places. Otherwise the fault is that of the first item that means nothing, or that a side is missing. And
with a key staged, a text that parses does to any cursor what the typed call with that key does: it
replies the same, and leaves the same but for the staged key. -/
theorem config_language (text : String) :
    ∃ items, Item.Lists text.toList items ∧
      (∀ others, Item.Lists text.toList others → others = items) ∧
      (∀ r, parse text = .ok r ↔ ∃ settings, List.Forall₂ Item.Means items settings ∧
        Complete settings ∧ r = of settings) ∧
      (∀ fault, parse text = .error fault ↔ Item.FirstFaulty items fault ∨
        fault = .missingSide ∧ ∃ settings, List.Forall₂ Item.Means items settings ∧
          ¬ Complete settings) ∧
      (∀ r, parse text = .ok r → ∀ (other : String) (moved : List Item),
        Item.Lists other.toList moved →
        (∀ name, moved.filter (·.name = name) = items.filter (·.name = name)) →
        parse other = .ok r) ∧
      ∀ r, parse text = .ok r → ∀ (s : Scan) (key : Key), s.table.format.check key = .ok () →
        ∃ call, r.call? key = some call ∧
          (CursorCall.setKey key).run s = (.done, { s with cursor.staged := some key.encode }) ∧
          (CursorCall.configureBound text).run { s with cursor.staged := some key.encode } =
            ((call.run s).1, { (call.run s).2 with cursor.staged := some key.encode }) := by
  obtain ⟨items, hitems, hunique⟩ := Item.exists_lists text
  refine ⟨items, hitems, hunique, fun r => parse_eq_ok_iff hitems, fun fault =>
    parse_eq_error_iff hitems, fun r hparse other moved hmoved hsame =>
    parse_congr hitems hmoved hsame hparse, fun r hparse s key hkey => ?_⟩
  obtain ⟨call, hcall⟩ := exists_call hparse key
  exact ⟨call, hcall, configureBound_eq hparse hkey hcall⟩

/-- A text with blanks in all places, a blank item, and a side that is named twice. -/
def spaced : String :=
  " bound = lower,,inclusive=0 , bound=upper\t"

def stopped : Scan where
  cursor :=
    { id := 1, options := {}, bounds := { lower := some ⟨Key.encode (.int 3), true⟩ }
      place := { position := .exhausted .backward (some ⟨Key.encode (.int 3)⟩) } }
  table := .empty ⟨[.int], nofun⟩ { codec := Snappy.codec }

theorem config_language_spaced :
    parse spaced = .ok { side := some .upper, inclusive := false } ∧
      (CursorCall.configureBound spaced).run
          { stopped with cursor.staged := some (Key.encode (.int 5)) } =
        (((CursorCall.setBound .upper (.int 5) false).run stopped).1,
          { ((CursorCall.setBound .upper (.int 5) false).run stopped).2 with
            cursor.staged := some (Key.encode (.int 5)) }) := by
  obtain ⟨items, -, -, -, -, -, htyped⟩ := config_language spaced
  have hparse : parse spaced = .ok { side := some .upper, inclusive := false } := by rfl
  obtain ⟨call, hcall, -, hrun⟩ := htyped _ hparse stopped (.int 5) (by rfl)
  obtain rfl := Option.some.inj hcall
  exact ⟨hparse, hrun⟩

end BoundRequest

end Keyspan
