import Mathlib.Data.List.Induction
import Mathlib.Data.List.TakeWhile
import ShaderKit.Preprocess.Constant

/-!
# How integer constants are written

`constantValue?` takes the suffix off, looks at the first characters for the base, and adds digits
up.  What it accepts can be said without saying how it is found out: a digit is a character of a
table (`IsDigit`), a numeral is a digit, or a numeral with one digit more (`IsNumeral`), and a
constant is a numeral in one of three dresses, small enough, with a suffix behind it
(`IsConstant`).  `constantValue?_eq_some_iff` says that the two agree.
-/

set_option autoImplicit false

namespace ShaderKit
namespace Preprocess

/-! ## Digits -/

/-- The characters that a digit may be written with, by its value. -/
def digitSpellings : List (List Char) :=
  ["0", "1", "2", "3", "4", "5", "6", "7", "8", "9", "aA", "bB", "cC", "dD", "eE", "fF"].map
    String.toList

/-- The character is a digit of the base, of the given value. -/
def IsDigit (base : Nat) (c : Char) (value : Nat) : Prop :=
  value < base ∧ c ∈ digitSpellings.getD value []

/-- The value of a character as a digit of whatever base. -/
def anyDigit? (c : Char) : Option Nat :=
  if '0' ≤ c ∧ c ≤ '9' then some (c.toNat - '0'.toNat)
  else if 'a' ≤ c ∧ c ≤ 'f' then some (c.toNat - 'a'.toNat + 10)
  else if 'A' ≤ c ∧ c ≤ 'F' then some (c.toNat - 'A'.toNat + 10)
  else none

theorem digitValue?_eq_some_iff_anyDigit? {base : Nat} {c : Char} {value : Nat} :
    digitValue? base c = some value ↔ value < base ∧ anyDigit? c = some value := by
  rw [digitValue?, ← anyDigit?, Option.filter_eq_some_iff, decide_eq_true_eq, and_comm]

/-- No digit lies behind `f`, which leaves finitely many characters to be looked at. -/
theorem lt_of_anyDigit? {c : Char} {value : Nat} (h : anyDigit? c = some value) :
    c.toNat < 103 := by
  have h9 : ('9' : Char).toNat = 57 := rfl
  have hf : ('f' : Char).toNat = 102 := rfl
  have hF : ('F' : Char).toNat = 70 := rfl
  simp only [anyDigit?, Char.le_def, UInt32.le_iff_toNat_le, Char.toNat_val] at h
  split at h
  · omega
  · split at h
    · omega
    · split at h
      · omega
      · cases h

theorem lt_of_mem_digitSpellings {c : Char} {value : Nat}
    (h : c ∈ digitSpellings.getD value []) : value < 16 := by
  rcases Nat.lt_or_ge value 16 with hv | hv
  · exact hv
  · rw [List.getD_eq_getElem?_getD, List.getElem?_eq_none hv] at h
    cases h

/-- What is true of all characters of the table is true of every digit. -/
theorem of_mem_digitSpellings (p : Char → Bool)
    (hall : (digitSpellings.all fun spellings => spellings.all p) = true) {c : Char} {value : Nat}
    (h : c ∈ digitSpellings.getD value []) : p c = true := by
  have hv : value < digitSpellings.length := lt_of_mem_digitSpellings h
  rw [List.getD_eq_getElem?_getD, List.getElem?_eq_getElem hv] at h
  exact List.all_eq_true.1 (List.all_eq_true.1 hall _ (List.getElem_mem hv)) c h

theorem anyDigit?_eq_some_iff {c : Char} {value : Nat} :
    anyDigit? c = some value ↔ c ∈ digitSpellings.getD value [] := by
  have hall : ∀ n < 103, ∀ v < 16,
      anyDigit? (Char.ofNat n) = some v ↔ Char.ofNat n ∈ digitSpellings.getD v [] := by decide
  have hbig : ∀ n < 103, ∀ v ∈ anyDigit? (Char.ofNat n), v < 16 := by decide
  constructor
  · intro h
    have hc := lt_of_anyDigit? h
    rw [← Char.ofNat_toNat c] at h ⊢
    exact (hall _ hc value (hbig _ hc value h)).1 h
  · intro h
    have hc := of_mem_digitSpellings (fun c => decide (c.toNat < 103)) (by decide) h
    have hv := lt_of_mem_digitSpellings h
    rw [← Char.ofNat_toNat c] at h ⊢
    exact (hall _ (of_decide_eq_true hc) value hv).2 h

theorem digitValue?_eq_some_iff {base : Nat} {c : Char} {value : Nat} :
    digitValue? base c = some value ↔ IsDigit base c value := by
  rw [digitValue?_eq_some_iff_anyDigit?, anyDigit?_eq_some_iff, IsDigit]

theorem not_isSuffixLetter_of_isDigit {base : Nat} {c : Char} {value : Nat}
    (h : IsDigit base c value) : isSuffixLetter c = false := by
  have hc := of_mem_digitSpellings (fun c => !isSuffixLetter c) (by decide) h.2
  rw [← Bool.not_eq_true']
  exact hc

/-! ## Numerals -/

/-- The characters are a numeral of the base, of the given value. -/
inductive IsNumeral (base : Nat) : List Char → Nat → Prop
  | digit {c : Char} {value : Nat} (h : IsDigit base c value) : IsNumeral base [c] value
  | append {digits : List Char} {value : Nat} {c : Char} {last : Nat}
      (h : IsNumeral base digits value) (hc : IsDigit base c last) :
      IsNumeral base (digits ++ [c]) (value * base + last)

theorem IsNumeral.ne_nil {base : Nat} {digits : List Char} {value : Nat}
    (h : IsNumeral base digits value) : digits ≠ [] := by
  cases h with
  | digit hc => simp
  | append h hc => simp

theorem numeralValue?_singleton (base : Nat) (c : Char) :
    numeralValue? base [c] = digitValue? base c := by
  cases hc : digitValue? base c with
  | none => simp [numeralValue?, hc]
  | some value => simp [numeralValue?, hc]

theorem numeralValue?_eq_foldl (base : Nat) {digits : List Char} (hne : digits ≠ []) :
    numeralValue? base digits =
      digits.foldl (fun value c => do return (← value) * base + (← digitValue? base c))
        (some 0) := by
  cases digits with
  | nil => exact absurd rfl hne
  | cons d digits => rfl

theorem numeralValue?_append (base : Nat) {digits : List Char} (hne : digits ≠ []) (c : Char) :
    numeralValue? base (digits ++ [c]) =
      do return (← numeralValue? base digits) * base + (← digitValue? base c) := by
  rw [numeralValue?_eq_foldl base (by simp), numeralValue?_eq_foldl base hne, List.foldl_append]
  rfl

theorem numeralValue?_eq_some_iff {base : Nat} {digits : List Char} {value : Nat} :
    numeralValue? base digits = some value ↔ IsNumeral base digits value := by
  constructor
  · intro h
    induction digits using List.reverseRecOn generalizing value with
    | nil => cases h
    | append_singleton digits c ih =>
      by_cases hne : digits = []
      · subst hne
        rw [List.nil_append, numeralValue?_singleton] at h
        exact .digit (digitValue?_eq_some_iff.1 h)
      · rw [numeralValue?_append base hne, Option.bind_eq_bind, Option.bind_eq_some_iff] at h
        obtain ⟨front, hfront, h⟩ := h
        obtain ⟨last, hlast, h⟩ := Option.bind_eq_some_iff.1 h
        cases h
        exact .append (ih hfront) (digitValue?_eq_some_iff.1 hlast)
  · intro h
    induction h with
    | digit hc => rw [numeralValue?_singleton, digitValue?_eq_some_iff.2 hc]
    | append h hc ih =>
      rw [numeralValue?_append base h.ne_nil, ih, digitValue?_eq_some_iff.2 hc]
      rfl

/-! ## Constants -/

/-- The characters are a constant without its suffix, of the given value: a decimal numeral, an
octal one behind a zero, or a hexadecimal one behind `0x`. -/
inductive IsBareConstant : List Char → Nat → Prop
  | decimal {digits : List Char} {value : Nat} (h : IsNumeral 10 digits value)
      (hz : digits.head? = some '0' → digits = ['0']) : IsBareConstant digits value
  | octal {digits : List Char} {value : Nat} (h : IsNumeral 8 digits value) :
      IsBareConstant ('0' :: digits) value
  | hexadecimal {mark : Char} {digits : List Char} {value : Nat} (hm : mark = 'x' ∨ mark = 'X')
      (h : IsNumeral 16 digits value) : IsBareConstant ('0' :: mark :: digits) value

/-- The text is an integer constant of the given value: below 2⁶⁴, and perhaps followed by letters
`u`, `U`, `l` and `L`. -/
def IsConstant (text : List Char) (value : Nat) : Prop :=
  value < 0x10000000000000000 ∧ ∃ bare suffix, text = bare ++ suffix ∧
    (∀ c ∈ suffix, c ∈ "uUlL".toList) ∧ IsBareConstant bare value

theorem isConstant_zero : IsConstant ['0'] 0 :=
  ⟨by decide, ['0'], [], rfl, nofun, .decimal (.digit ⟨by decide, by decide⟩) (by decide)⟩

theorem isConstant_one : IsConstant ['1'] 1 :=
  ⟨by decide, ['1'], [], rfl, nofun, .decimal (.digit ⟨by decide, by decide⟩) (by decide)⟩

theorem IsNumeral.getLast_isDigit {base : Nat} {digits : List Char} {value : Nat}
    (h : IsNumeral base digits value) :
    ∃ front c last, digits = front ++ [c] ∧ IsDigit base c last := by
  cases h with
  | digit hc => exact ⟨[], _, _, rfl, hc⟩
  | append h hc => exact ⟨_, _, _, rfl, hc⟩

/-- A constant without its suffix ends in a digit, so nothing of it could be taken for suffix. -/
theorem IsBareConstant.getLast_isDigit {bare : List Char} {value : Nat}
    (h : IsBareConstant bare value) :
    ∃ front c base last, bare = front ++ [c] ∧ IsDigit base c last := by
  cases h with
  | decimal h hz =>
    obtain ⟨front, c, last, rfl, hc⟩ := h.getLast_isDigit
    exact ⟨front, c, 10, last, rfl, hc⟩
  | octal h =>
    obtain ⟨front, c, last, rfl, hc⟩ := h.getLast_isDigit
    exact ⟨'0' :: front, c, 8, last, rfl, hc⟩
  | @hexadecimal mark _ _ hm h =>
    obtain ⟨front, c, last, rfl, hc⟩ := h.getLast_isDigit
    exact ⟨'0' :: mark :: front, c, 16, last, rfl, hc⟩

/-- The text without the letters at its end that may be a suffix. -/
def withoutSuffix (text : List Char) : List Char :=
  (text.reverse.dropWhile isSuffixLetter).reverse

theorem isSuffixLetter_iff {c : Char} : isSuffixLetter c = true ↔ c ∈ "uUlL".toList := by
  simp [isSuffixLetter, or_assoc]

theorem withoutSuffix_append {front suffix : List Char} {c : Char}
    (hc : isSuffixLetter c = false) (hs : ∀ d ∈ suffix, d ∈ "uUlL".toList) :
    withoutSuffix (front ++ [c] ++ suffix) = front ++ [c] := by
  have hdrop : suffix.reverse.dropWhile isSuffixLetter = [] :=
    List.dropWhile_eq_nil_iff.2 fun d hd => isSuffixLetter_iff.2 (hs d (List.mem_reverse.1 hd))
  rw [withoutSuffix, List.reverse_append, List.dropWhile_append, hdrop]
  simp [hc]

theorem exists_suffix (text : List Char) :
    ∃ suffix, text = withoutSuffix text ++ suffix ∧ ∀ c ∈ suffix, c ∈ "uUlL".toList := by
  refine ⟨(text.reverse.takeWhile isSuffixLetter).reverse, ?_, fun c hc => ?_⟩
  · rw [withoutSuffix, ← List.reverse_append, List.takeWhile_append_dropWhile, List.reverse_reverse]
  · exact isSuffixLetter_iff.1 (List.mem_takeWhile_imp (List.mem_reverse.1 hc))

/-- The base that a text without its suffix is written in, and its digits. -/
def baseAndDigits : List Char → Nat × List Char
  | '0' :: 'x' :: digits => (16, digits)
  | '0' :: 'X' :: digits => (16, digits)
  | '0' :: c :: digits => (8, c :: digits)
  | digits => (10, digits)

theorem constantDigits_eq (text : List Char) :
    constantDigits text = baseAndDigits (withoutSuffix text) := rfl

theorem not_isMark_of_isDigit {base : Nat} {c : Char} {value : Nat} (h : IsDigit base c value) :
    c ≠ 'x' ∧ c ≠ 'X' := by
  have hc := of_mem_digitSpellings (fun c => decide (c ≠ 'x') && decide (c ≠ 'X')) (by decide) h.2
  rw [Bool.and_eq_true, decide_eq_true_eq, decide_eq_true_eq] at hc
  exact hc

theorem IsNumeral.head_isDigit {base : Nat} {digits : List Char} {value : Nat}
    (h : IsNumeral base digits value) :
    ∃ c rest first, digits = c :: rest ∧ IsDigit base c first := by
  induction h with
  | digit hc => exact ⟨_, [], _, rfl, hc⟩
  | @append digits value c last h hc ih =>
    obtain ⟨d, rest, first, rfl, hd⟩ := ih
    exact ⟨d, rest ++ [c], first, rfl, hd⟩

theorem baseAndDigits_decimal {digits : List Char} (hz : digits.head? = some '0' → digits = ['0']) :
    baseAndDigits digits = (10, digits) := by
  rw [baseAndDigits.eq_def]
  split
  · cases hz rfl
  · cases hz rfl
  · cases hz rfl
  · rfl

theorem baseAndDigits_octal {c : Char} {digits : List Char} (hx : c ≠ 'x') (hX : c ≠ 'X') :
    baseAndDigits ('0' :: c :: digits) = (8, c :: digits) := by
  rw [baseAndDigits.eq_def]
  split
  · next heq => cases heq; exact absurd rfl hx
  · next heq => cases heq; exact absurd rfl hX
  · next heq => cases heq; rfl
  · next hoct => exact absurd rfl (hoct c digits)

/-- The base is found from the first two characters. -/
theorem isBareConstant_iff {bare : List Char} {value : Nat} :
    IsBareConstant bare value ↔ IsNumeral (baseAndDigits bare).1 (baseAndDigits bare).2 value := by
  constructor
  · intro h
    cases h with
    | decimal h hz =>
      rw [baseAndDigits_decimal hz]
      exact h
    | octal h =>
      obtain ⟨c, rest, first, rfl, hc⟩ := h.head_isDigit
      have hmark := not_isMark_of_isDigit hc
      rw [baseAndDigits_octal hmark.1 hmark.2]
      exact h
    | hexadecimal hm h =>
      rcases hm with rfl | rfl
      · exact h
      · exact h
  · intro h
    rw [baseAndDigits.eq_def] at h
    split at h
    · exact .hexadecimal (Or.inl rfl) h
    · exact .hexadecimal (Or.inr rfl) h
    · exact .octal h
    · next hoct =>
      refine .decimal h fun hhead => ?_
      obtain ⟨rest, rfl⟩ := List.head?_eq_some_iff.1 hhead
      cases rest with
      | nil => rfl
      | cons c rest => exact absurd rfl (hoct c rest)

theorem constantValue?_eq_some_iff_numeral {text : List Char} {value : Int64} :
    constantValue? text = some value ↔
      ∃ n < constantLimit, value = Int64.ofNat n ∧
        numeralValue? (constantDigits text).1 (constantDigits text).2 = some n := by
  rw [constantValue?]
  cases hn : numeralValue? (constantDigits text).1 (constantDigits text).2 with
  | none => simp [hn]
  | some n =>
    by_cases hlt : n < constantLimit
    · simp [hn, hlt, eq_comm]
    · simp [hn, hlt]

/-- **What is read as a constant is a constant**, and its value is taken for a pattern of 64
bits. -/
theorem constantValue?_eq_some_iff {text : List Char} {value : Int64} :
    constantValue? text = some value ↔ ∃ n, IsConstant text n ∧ value = Int64.ofNat n := by
  rw [constantValue?_eq_some_iff_numeral]
  constructor
  · rintro ⟨n, hlt, rfl, hn⟩
    rw [constantDigits_eq, numeralValue?_eq_some_iff, ← isBareConstant_iff] at hn
    obtain ⟨suffix, htext, hs⟩ := exists_suffix text
    exact ⟨n, ⟨hlt, withoutSuffix text, suffix, htext, hs, hn⟩, rfl⟩
  · rintro ⟨n, ⟨hlt, bare, suffix, rfl, hs, hbare⟩, rfl⟩
    refine ⟨n, hlt, rfl, ?_⟩
    have hcut : withoutSuffix (bare ++ suffix) = bare := by
      obtain ⟨front, c, base, last, rfl, hc⟩ := hbare.getLast_isDigit
      exact withoutSuffix_append (not_isSuffixLetter_of_isDigit hc) hs
    rw [constantDigits_eq, numeralValue?_eq_some_iff, hcut, ← isBareConstant_iff]
    exact hbare

end Preprocess
end ShaderKit
