import Keyspan.Error
import Mathlib.Data.Fin.Basic
import Mathlib.Data.List.Basic
import Mathlib.Data.List.Induction
import Mathlib.Data.Nat.Digits.Defs

/-!
The language of key formats.

A format text is a run of tokens, and each token declares one field. The text parses if it is such a run
and not empty; any other text is refused for what stands behind some tokens, where no other begins.
-/

set_option autoImplicit false
set_option relaxedAutoImplicit false

namespace Keyspan.Format

def decimal (digits : List (Fin 10)) : Nat :=
  Nat.ofDigits 10 (digits.reverse.map Fin.val)

def orOne : List (Fin 10) → List (Fin 10)
  | [] => [1]
  | digits => digits

/-- The letter of a field type, or the digits of a width and the letter of a fixed-width record. Digits
are a width if they stand for one that is not zero and fits in a word; without any it is 1. -/
inductive Token
  | string
  | quad
  | int
  | recno
  | raw
  | fixed (digits : List (Fin 10)) (pos : 0 < decimal (orOne digits))
    (fits : decimal (orOne digits) < 2 ^ 64)
  deriving DecidableEq

namespace Token

def digits : Token → List (Fin 10)
  | fixed digits _ _ => digits
  | _ => []

def letter : Token → Char
  | string => 'S'
  | quad => 'q'
  | int => 'i'
  | recno => 'r'
  | raw => 'u'
  | fixed _ _ _ => 's'

def digitChar (d : Fin 10) : Char :=
  Nat.digitChar d

def spelling (t : Token) : List Char :=
  t.digits.map digitChar ++ [t.letter]

def field : Token → FieldType
  | string => .string
  | quad => .int
  | int => .int
  | recno => .recno
  | raw => .raw
  | fixed digits pos _ => .fixed (decimal (orOne digits)) pos

/-- What is left of a token when `i` is written as `q`, a width is written even if it is 1, and the zeros
in front of it are not written. -/
def core : Token → Char × List (Fin 10)
  | int => (letter quad, [])
  | fixed digits _ _ => ('s', (orOne digits).dropWhile (· = 0))
  | t => (t.letter, [])

end Token

/-- Why no token begins a text that is not empty: its digits run over a word, make a width of zero, stand
before another letter or before nothing; or there are none, and no letter of a token either. -/
inductive Stalls : List Char → FormatFault → Prop
  | overflow {digits : List (Fin 10)} (big : 2 ^ 64 ≤ decimal digits) (rest : List Char) :
    Stalls (digits.map Token.digitChar ++ rest) .widthOverflow
  | zero {digits : List (Fin 10)} (written : digits ≠ []) (zero : decimal digits = 0)
    (rest : List Char) : Stalls (digits.map Token.digitChar ++ 's' :: rest) .zeroWidth
  | before {digits : List (Fin 10)} (written : digits ≠ []) (fits : decimal digits < 2 ^ 64)
    {c : Char} (ended : c.isDigit = false) (other : c ≠ 's') (rest : List Char) :
    Stalls (digits.map Token.digitChar ++ c :: rest) .widthBeforeLetter
  | dangling {digits : List (Fin 10)} (written : digits ≠ []) (fits : decimal digits < 2 ^ 64) :
    Stalls (digits.map Token.digitChar) .danglingWidth
  | unknown {c : Char} (digit : c.isDigit = false) (letter : ∀ t : Token, t.letter ≠ c)
    (rest : List Char) : Stalls (c :: rest) (.unknownLetter c)

/-- Why a text is no run of tokens: there is nothing in it, or behind some tokens no other begins. -/
inductive Refused : List Char → FormatFault → Prop
  | empty : Refused [] .noFields
  | behind (tokens : List Token) {rest : List Char} {fault : FormatFault} (h : Stalls rest fault) :
    Refused (tokens.flatMap Token.spelling ++ rest) fault

section Decimal

variable (digits others : List (Fin 10)) (d : Fin 10)

private theorem decimal_concat : decimal (digits ++ [d]) = decimal digits * 10 + d := by
  rw [decimal, List.reverse_append, List.reverse_singleton, List.singleton_append, List.map_cons,
    Nat.ofDigits_cons, decimal, Nat.mul_comm, Nat.add_comm]

private theorem decimal_zero_cons : decimal (0 :: digits) = decimal digits := by
  rw [decimal, List.map_reverse, List.map_cons, decimal, List.map_reverse]
  exact Nat.ofDigits_reverse_zero_cons _

private theorem decimal_dropWhile : decimal (digits.dropWhile (· = 0)) = decimal digits := by
  induction digits with
  | nil => rfl
  | cons d digits ih =>
    rw [List.dropWhile_cons]
    split
    next hd =>
      obtain rfl : d = 0 := of_decide_eq_true hd
      rw [ih, decimal_zero_cons]
    next => rfl

variable {digits others}

private theorem orOne_of_ne_nil (h : digits ≠ []) : orOne digits = digits := by
  cases digits with
  | nil => exact absurd rfl h
  | cons _ _ => rfl

private theorem decimal_orOne_lt_iff : decimal (orOne digits) < 2 ^ 64 ↔ decimal digits < 2 ^ 64 := by
  cases digits with
  | nil => decide
  | cons _ _ => exact Iff.rfl

variable (digits others)

theorem digits_decimal :
    Nat.digits 10 (decimal digits) = (digits.dropWhile (· = 0)).reverse.map Fin.val := by
  rw [← decimal_dropWhile, decimal]
  refine Nat.digits_ofDigits 10 (by decide) _ (fun l hl => ?_) fun hne => ?_
  · obtain ⟨d, -, rfl⟩ := List.mem_map.1 hl
    exact d.isLt
  · have hhead : ∀ h, (digits.dropWhile (· = 0)).head h ≠ 0 := fun h =>
      of_decide_eq_false (List.head_dropWhile_not (fun d : Fin 10 => decide (d = 0)) h)
    rw [List.getLast_map, List.getLast_reverse]
    exact fun hzero => hhead _ (Fin.val_injective hzero)

theorem decimal_eq_iff : decimal digits = decimal others ↔
    digits.dropWhile (· = 0) = others.dropWhile (· = 0) := by
  constructor
  · intro h
    have hdigits := digits_decimal digits
    rw [h, digits_decimal others] at hdigits
    exact List.reverse_inj.1 (List.map_injective_iff.2 Fin.val_injective hdigits.symm)
  · intro h
    rw [← decimal_dropWhile digits, h, decimal_dropWhile]

end Decimal

namespace Token

private theorem isDigit_digitChar (d : Fin 10) : (digitChar d).isDigit = true := by
  rw [digitChar, Nat.isDigit_digitChar]
  exact decide_eq_true d.isLt

private theorem toNat_digitChar (d : Fin 10) : (digitChar d).toNat = 48 + d :=
  Nat.toNat_digitChar_of_lt_ten d.isLt

private theorem exists_digitChar {c : Char} (h : c.isDigit = true) : ∃ d, c = digitChar d := by
  obtain ⟨hlow, hhigh⟩ := Char.isDigit_iff_toNat.1 h
  have hlow' : 48 ≤ c.toNat := hlow
  have hhigh' : c.toNat ≤ 57 := hhigh
  refine ⟨⟨c.toNat - 48, by omega⟩, Char.toNat_inj.1 ?_⟩
  rw [toNat_digitChar]
  show c.toNat = 48 + (c.toNat - 48)
  omega

private theorem isDigit_letter (t : Token) : t.letter.isDigit = false := by
  cases t <;> rfl

private theorem spelling_of_letter_ne {t : Token} (h : t.letter ≠ 's') : t.spelling = [t.letter] := by
  cases t with
  | fixed _ _ _ => exact absurd rfl h
  | _ => rfl

private theorem digitChar_injective : Function.Injective digitChar := by
  intro d e h
  have hnat := congrArg Char.toNat h
  rw [toNat_digitChar, toNat_digitChar] at hnat
  exact Fin.ext (by omega)

private theorem eq_of_digits {t u : Token} (hletter : t.letter = u.letter)
    (hdigits : t.digits = u.digits) :
    t = u := by
  cases t with
  | fixed digits _ _ =>
    cases u with
    | fixed others _ _ =>
      obtain rfl : digits = others := hdigits
      rfl
    | _ => exact nomatch hletter
  | _ => cases u <;> first | rfl | exact nomatch hletter

theorem digits_append_inj {digits others : List (Fin 10)} {c c' : Char} {rest rest' : List Char}
    (hc : c.isDigit = false) (hc' : c'.isDigit = false)
    (h : digits.map digitChar ++ c :: rest = others.map digitChar ++ c' :: rest') :
    digits = others ∧ c = c' ∧ rest = rest' := by
  have hall : ∀ l : List (Fin 10), ∀ x ∈ l.map digitChar, x.isDigit = true := by
    intro l x hx
    obtain ⟨d, -, rfl⟩ := List.mem_map.1 hx
    exact isDigit_digitChar d
  have hfront := congrArg (List.takeWhile Char.isDigit) h
  rw [List.takeWhile_append_of_pos (hall _), List.takeWhile_append_of_pos (hall _),
    List.takeWhile_cons_of_neg (by simp [hc]), List.takeWhile_cons_of_neg (by simp [hc']),
    List.append_nil, List.append_nil] at hfront
  obtain rfl := List.map_injective_iff.2 digitChar_injective hfront
  obtain ⟨rfl, rfl⟩ := List.cons.inj (List.append_cancel_left h)
  exact ⟨rfl, rfl, rfl⟩

theorem flatMap_spelling_injective {tokens others : List Token}
    (h : tokens.flatMap spelling = others.flatMap spelling) : tokens = others := by
  induction tokens generalizing others with
  | nil =>
    cases others with
    | nil => rfl
    | cons u others => simp [spelling] at h
  | cons t tokens ih =>
    cases others with
    | nil => simp [spelling] at h
    | cons u others =>
      simp only [List.flatMap_cons, spelling, List.append_assoc, List.singleton_append] at h
      obtain ⟨hdigits, hletter, hrest⟩ :=
        digits_append_inj t.isDigit_letter u.isDigit_letter h
      rw [eq_of_digits hletter hdigits, ih hrest]

theorem field_eq_iff {t u : Token} : t.field = u.field ↔ t.core = u.core := by
  cases t <;> cases u <;> simp [field, core, letter, decimal_eq_iff]

private theorem map_field_eq_iff {tokens others : List Token} :
    tokens.map field = others.map field ↔ tokens.map core = others.map core := by
  induction tokens generalizing others with
  | nil => cases others <;> simp
  | cons t tokens ih =>
    cases others with
    | nil => simp
    | cons u others => simp [field_eq_iff, ih]

end Token

def pending (digits : List (Fin 10)) : Option Nat :=
  if digits = [] then none else some (decimal digits)

section Pending

variable {digits : List (Fin 10)} {rest : List Char}

private theorem pending_getD_zero (digits : List (Fin 10)) :
    (pending digits).getD 0 = decimal digits := by
  cases digits <;> rfl

private theorem pending_getD_one (digits : List (Fin 10)) :
    (pending digits).getD 1 = decimal (orOne digits) := by
  cases digits <;> rfl

private theorem isSome_pending : (pending digits).isSome = true ↔ digits ≠ [] := by
  cases digits <;> simp [pending]

theorem parseFields_digitChar (d : Fin 10) :
    parseFields (pending digits) (Token.digitChar d :: rest) =
      if decimal (digits ++ [d]) < 2 ^ 64 then parseFields (pending (digits ++ [d])) rest
      else .error .widthOverflow := by
  have hnext : (pending digits).getD 0 * 10 + ((Token.digitChar d).toNat - '0'.toNat) =
      decimal (digits ++ [d]) := by
    rw [pending_getD_zero, decimal_concat, Token.toNat_digitChar]
    show _ + (48 + d.val - 48) = _
    omega
  have hpending : pending (digits ++ [d]) = some (decimal (digits ++ [d])) := by
    cases digits <;> rfl
  rw [parseFields, if_pos (Token.isDigit_digitChar d), hnext, hpending]
  rfl

theorem parseFields_fixed (rest : List Char) (pos : 0 < decimal (orOne digits)) :
    parseFields (pending digits) ('s' :: rest) =
      (parseFields none rest).map (.fixed (decimal (orOne digits)) pos :: ·) := by
  rw [parseFields, if_neg (by decide), if_pos rfl]
  simp only [pending_getD_one]
  rw [dif_pos pos]

theorem parseFields_digits (rest : List Char) (h : decimal digits < 2 ^ 64) :
    parseFields none (digits.map Token.digitChar ++ rest) = parseFields (pending digits) rest := by
  induction digits using List.reverseRecOn generalizing rest with
  | nil => rfl
  | append_singleton digits d ih =>
    have hfront : decimal digits < 2 ^ 64 := by
      rw [decimal_concat] at h
      omega
    rw [List.map_append, List.append_assoc, ih _ hfront, List.map_singleton, List.singleton_append,
      parseFields_digitChar, if_pos h]

theorem parseFields_overflow (rest : List Char) (h : 2 ^ 64 ≤ decimal digits) :
    parseFields none (digits.map Token.digitChar ++ rest) = .error .widthOverflow := by
  induction digits using List.reverseRecOn generalizing rest with
  | nil => exact absurd h (by decide)
  | append_singleton digits d ih =>
    rw [List.map_append, List.append_assoc, List.map_singleton, List.singleton_append]
    by_cases hfront : decimal digits < 2 ^ 64
    · rw [parseFields_digits _ hfront, parseFields_digitChar, if_neg (Nat.not_lt_of_le h)]
    · exact ih _ (Nat.le_of_not_lt hfront)

theorem parseFields_spelling (t : Token) (rest : List Char) :
    parseFields none (t.spelling ++ rest) = (parseFields none rest).map (t.field :: ·) := by
  cases t with
  | fixed digits pos fits =>
    rw [Token.spelling, List.append_assoc]
    exact (parseFields_digits _ (decimal_orOne_lt_iff.1 fits)).trans (parseFields_fixed rest pos)
  | _ => rfl

private theorem parseFields_tokens (tokens : List Token) (rest : List Char) :
    parseFields none (tokens.flatMap Token.spelling ++ rest) =
      (parseFields none rest).map (tokens.map Token.field ++ ·) := by
  induction tokens with
  | nil => exact (congrFun Except.map_id (parseFields none rest)).symm
  | cons t tokens ih =>
    rw [List.flatMap_cons, List.append_assoc, parseFields_spelling, ih]
    cases parseFields none rest <;> rfl

theorem parseFields_of_stalls {text : List Char} {fault : FormatFault} (h : Stalls text fault) :
    parseFields none text = .error fault := by
  cases h with
  | overflow big rest => exact parseFields_overflow rest big
  | @zero digits written zero rest =>
    rw [parseFields_digits _ (by omega), parseFields, if_neg (by decide), if_pos rfl]
    simp only [pending_getD_one, orOne_of_ne_nil written]
    rw [dif_neg (by omega)]
  | @before digits written fits c ended other rest =>
    rw [parseFields_digits _ fits, parseFields, if_neg (by simp [ended]), if_neg other,
      if_pos (isSome_pending.2 written)]
  | @dangling digits written fits =>
    have hpending : pending digits = some (decimal digits) := if_neg written
    rw [← List.append_nil (digits.map Token.digitChar), parseFields_digits _ fits, hpending]
    rfl
  | @unknown c digit letter rest =>
    have hS : c ≠ 'S' := (letter .string).symm
    have hq : c ≠ 'q' := (letter .quad).symm
    have hi : c ≠ 'i' := (letter .int).symm
    have hr : c ≠ 'r' := (letter .recno).symm
    have hu : c ≠ 'u' := (letter .raw).symm
    have hs : c ≠ 's' := (letter (.fixed [] (by decide) (by decide))).symm
    have hletter : FieldType.ofLetter? c = none := by
      rw [FieldType.ofLetter?, if_neg hS, if_neg (not_or.2 ⟨hq, hi⟩), if_neg hr, if_neg hu]
    rw [parseFields, if_neg (by simp [digit]), if_neg hs, if_neg (by decide), hletter]

end Pending

def Settled (text : List Char) : Prop :=
  (∃ tokens : List Token, tokens.flatMap Token.spelling = text) ∨
    ∃ (tokens : List Token) (rest : List Char) (fault : FormatFault),
      Stalls rest fault ∧ tokens.flatMap Token.spelling ++ rest = text

namespace Settled

variable {text : List Char} {fault : FormatFault}

private theorem stall (h : Stalls text fault) : Settled text :=
  Or.inr ⟨[], text, fault, h, rfl⟩

private theorem token (t : Token) (h : Settled text) : Settled (t.spelling ++ text) := by
  obtain ⟨tokens, rfl⟩ | ⟨tokens, rest, fault, hstalls, rfl⟩ := h
  · exact Or.inl ⟨t :: tokens, List.flatMap_cons⟩
  · exact Or.inr ⟨t :: tokens, rest, fault, hstalls, by rw [List.flatMap_cons, List.append_assoc]⟩

end Settled

theorem settled_digits (digits : List (Fin 10)) (h : decimal digits < 2 ^ 64) (text : List Char) :
    Settled (digits.map Token.digitChar ++ text) := by
  induction text generalizing digits with
  | nil =>
    rw [List.append_nil]
    by_cases hnil : digits = []
    · exact Or.inl ⟨[], by rw [hnil]; rfl⟩
    · exact .stall (.dangling hnil h)
  | cons c text ih =>
    have hrest : Settled text := ih [] (by decide)
    by_cases hdigit : c.isDigit = true
    · obtain ⟨d, rfl⟩ := Token.exists_digitChar hdigit
      rw [List.append_cons, ← List.map_singleton, ← List.map_append]
      by_cases hfits : decimal (digits ++ [d]) < 2 ^ 64
      · exact ih _ hfits
      · exact .stall (.overflow (Nat.le_of_not_lt hfits) text)
    rw [Bool.not_eq_true] at hdigit
    by_cases hs : c = 's'
    · subst hs
      by_cases hpos : 0 < decimal (orOne digits)
      · have hsettled := hrest.token (.fixed digits hpos (decimal_orOne_lt_iff.2 h))
        rw [Token.spelling, List.append_assoc] at hsettled
        exact hsettled
      · have hnil : digits ≠ [] := by
          rintro rfl
          exact hpos (by decide)
        rw [orOne_of_ne_nil hnil] at hpos
        exact .stall (.zero hnil (Nat.eq_zero_of_not_pos hpos) text)
    by_cases hnil : digits = []
    · subst hnil
      by_cases hletter : ∃ t : Token, t.letter = c
      · obtain ⟨t, rfl⟩ := hletter
        have hsettled := hrest.token t
        rw [Token.spelling_of_letter_ne hs] at hsettled
        exact hsettled
      · exact .stall (.unknown hdigit (not_exists.1 hletter) text)
    · exact .stall (.before hnil h hdigit hs text)

section Parse

variable {text : String} {tokens : List Token} {f : Format} {fault : FormatFault}

private theorem parse_of_tokens (h : tokens.flatMap Token.spelling = text.toList)
    (hne : tokens ≠ []) :
    parse text = .ok ⟨tokens.map Token.field, fun hnil => hne (List.map_eq_nil_iff.1 hnil)⟩ := by
  have hfields : parseFields none text.toList = .ok (tokens.map Token.field) := by
    rw [← h, ← List.append_nil (tokens.flatMap Token.spelling), parseFields_tokens]
    exact congrArg Except.ok (List.append_nil _)
  rw [parse, hfields]
  exact dif_pos _

private theorem parse_of_refused (h : Refused text.toList fault) : parse text = .error fault := by
  generalize hchars : text.toList = chars at h
  cases h with
  | empty =>
    rw [parse, hchars]
    rfl
  | @behind tokens rest fault hstalls =>
    rw [parse, hchars, parseFields_tokens, parseFields_of_stalls hstalls]
    rfl

theorem tokens_or_refused (text : List Char) :
    (∃ tokens : List Token, tokens ≠ [] ∧ tokens.flatMap Token.spelling = text) ∨
      ∃ fault, Refused text fault := by
  have hsettled : Settled text := settled_digits [] (by decide) text
  obtain ⟨tokens, rfl⟩ | ⟨tokens, rest, fault, hstalls, rfl⟩ := hsettled
  · by_cases hne : tokens = []
    · subst hne
      exact Or.inr ⟨_, .empty⟩
    · exact Or.inl ⟨tokens, hne, rfl⟩
  · exact Or.inr ⟨fault, .behind tokens hstalls⟩

theorem parse_eq_ok_iff : parse text = .ok f ↔ ∃ tokens : List Token, tokens ≠ [] ∧
    tokens.flatMap Token.spelling = text.toList ∧ f.fields = tokens.map Token.field := by
  constructor
  · intro h
    obtain ⟨tokens, hne, htokens⟩ | ⟨fault, hrefused⟩ := tokens_or_refused text.toList
    · rw [parse_of_tokens htokens hne] at h
      exact ⟨tokens, hne, htokens, (congrArg fields (Except.ok.inj h)).symm⟩
    · rw [parse_of_refused hrefused] at h
      cases h
  · rintro ⟨tokens, hne, htokens, hfields⟩
    rw [parse_of_tokens htokens hne]
    cases f
    cases hfields
    rfl

private theorem fields_of_tokens (h : parse text = .ok f)
    (htokens : tokens.flatMap Token.spelling = text.toList) : f.fields = tokens.map Token.field := by
  obtain ⟨others, -, hothers, hfields⟩ := parse_eq_ok_iff.1 h
  rw [hfields, Token.flatMap_spelling_injective (hothers.trans htokens.symm)]

private theorem parse_eq_error_iff : parse text = .error fault ↔ Refused text.toList fault := by
  refine ⟨fun h => ?_, parse_of_refused⟩
  obtain ⟨tokens, hne, htokens⟩ | ⟨other, hrefused⟩ := tokens_or_refused text.toList
  · rw [parse_of_tokens htokens hne] at h
    cases h
  · rw [parse_of_refused hrefused] at h
    exact Except.error.inj h ▸ hrefused

private theorem ofText_eq_ok_iff : ofText text = .ok f ↔ parse text = .ok f := by
  rw [ofText]
  cases parse text <;> simp

private theorem ofText_eq_error_iff {e : Error} : ofText text = .error e ↔
    ∃ fault, parse text = .error fault ∧ e = .invalidArgument (.format text fault) := by
  rw [ofText]
  cases parse text <;> simp [eq_comm]

theorem Token.width_lt {width : Nat} {pos : 0 < width} {t : Token}
    (h : t.field = .fixed width pos) : width < 2 ^ 64 := by
  cases t with
  | fixed digits _ fits =>
    obtain rfl := FieldType.fixed.inj h
    exact fits
  | _ => cases h

end Parse

/-- A text is a format exactly if it is a run of tokens that is not empty, and it is so in one way; its
fields are then what the tokens declare. Any other text is an invalid argument, for what it stalls at
behind some tokens. So a format has a field, and every width is positive and fits in a word; and two
formats have the same fields just if the same is left of their tokens when `i` is written as `q`, widths
are written even if they are 1, and the zeros in front of them are not written. -/
theorem ofText_language (text : String) :
    ((∃ f, ofText text = .ok f) ↔
      ∃ tokens : List Token, tokens ≠ [] ∧ tokens.flatMap Token.spelling = text.toList) ∧
    (∀ tokens others : List Token, tokens.flatMap Token.spelling = text.toList →
      others.flatMap Token.spelling = text.toList → tokens = others) ∧
    (∀ f, ∀ tokens : List Token, ofText text = .ok f →
      tokens.flatMap Token.spelling = text.toList → f.fields = tokens.map Token.field) ∧
    (∀ e, ofText text = .error e ↔
      ∃ fault, Refused text.toList fault ∧ e = .invalidArgument (.format text fault)) ∧
    (∀ f, ofText text = .ok f → f.fields ≠ [] ∧
      ∀ width pos, .fixed width pos ∈ f.fields → 0 < width ∧ width < 2 ^ 64) ∧
    ∀ (other : String) (f g : Format) (tokens others : List Token),
      ofText text = .ok f → tokens.flatMap Token.spelling = text.toList →
      ofText other = .ok g → others.flatMap Token.spelling = other.toList →
      (f.fields = g.fields ↔ tokens.map Token.core = others.map Token.core) := by
  refine ⟨⟨?_, ?_⟩, ?_, fun f tokens hf => fields_of_tokens (ofText_eq_ok_iff.1 hf), fun e => ?_, ?_,
    ?_⟩
  · rintro ⟨f, hf⟩
    obtain ⟨tokens, hne, htokens, -⟩ := parse_eq_ok_iff.1 (ofText_eq_ok_iff.1 hf)
    exact ⟨tokens, hne, htokens⟩
  · rintro ⟨tokens, hne, htokens⟩
    exact ⟨_, ofText_eq_ok_iff.2 (parse_of_tokens htokens hne)⟩
  · intro tokens others htokens hothers
    exact Token.flatMap_spelling_injective (htokens.trans hothers.symm)
  · simp only [ofText_eq_error_iff, parse_eq_error_iff]
  · intro f hf
    obtain ⟨tokens, -, -, hfields⟩ := parse_eq_ok_iff.1 (ofText_eq_ok_iff.1 hf)
    refine ⟨f.nonempty, fun width pos hmem => ⟨pos, ?_⟩⟩
    rw [hfields] at hmem
    obtain ⟨t, -, ht⟩ := List.mem_map.1 hmem
    exact Token.width_lt ht
  · intro other f g tokens others hf htokens hg hothers
    rw [fields_of_tokens (ofText_eq_ok_iff.1 hf) htokens,
      fields_of_tokens (ofText_eq_ok_iff.1 hg) hothers]
    exact Token.map_field_eq_iff

def plain : List Token :=
  [.quad, .fixed [] (by decide) (by decide)]

def respelled : List Token :=
  [.int, .fixed [0, 1] (by decide) (by decide)]

theorem ofText_language_respelled :
    ∃ f g, ofText "qs" = .ok f ∧ ofText "i01s" = .ok g ∧ f.fields = g.fields ∧
      g.fields = respelled.map Token.field ∧
      ofText "i01" = .error (.invalidArgument (.format "i01" .danglingWidth)) := by
  have hqs : plain.flatMap Token.spelling = "qs".toList := by decide
  have hi01s : respelled.flatMap Token.spelling = "i01s".toList := by decide
  obtain ⟨⟨-, hplain⟩, -, -, -, -, hsame⟩ := ofText_language "qs"
  obtain ⟨⟨-, hrespelled⟩, -, hfields, -⟩ := ofText_language "i01s"
  obtain ⟨-, -, -, hfault, -⟩ := ofText_language "i01"
  obtain ⟨f, hf⟩ := hplain ⟨plain, by decide, hqs⟩
  obtain ⟨g, hg⟩ := hrespelled ⟨respelled, by decide, hi01s⟩
  have hdangling : Refused "i01".toList .danglingWidth :=
    .behind [.int] (@Stalls.dangling [0, 1] (by decide) (by decide))
  exact ⟨f, g, hf, hg, (hsame "i01s" f g plain respelled hf hqs hg hi01s).2 (by decide),
    hfields g respelled hg hi01s, (hfault _).2 ⟨_, hdangling, rfl⟩⟩

end Keyspan.Format
