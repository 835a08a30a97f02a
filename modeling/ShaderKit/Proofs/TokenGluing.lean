import ShaderKit.Proofs.ExpansionSeam
import ShaderKit.Proofs.IncludeRecorder
import ShaderKit.Proofs.Lexemes

/-!
# Tokens that run together

A line of text is put out as the texts of its tokens, one behind the other.  Whoever reads that line
cuts it into tokens again, and takes as much for a token as can be one.  So a token may run on into
the text behind it (`Token.runsOn`): a name into another name, a number into a sign, a minus into a
minus.  In the tokens of a line that cannot happen, or they would have been cut otherwise; but an
expansion brings tokens together that were apart, and puts nothing between them.

What is read again is what was put out exactly if no token runs on (`words_tokenize_spelling_iff`).
The argument is about lexemes, and an expansion has no other tokens, as it makes none: each token of
a result is one of the line or of the body of a macro, hidden names aside (`forall_mem_expand`).
-/

set_option autoImplicit false

namespace ShaderKit
namespace Preprocess

/-! ## What a token takes of the text behind it -/

/-- Whether a character goes on with a number whose last character so far is `last`. -/
def continuesNumber (last c : Char) : Bool :=
  isWordChar c || c = '.' || ((c = '+' || c = '-') && isExponentMark last)

/-- Whether a literal has its closing mark, given what stands behind the opening one. -/
def literalEnds (quote : Char) : List Char → Bool
  | [] => false
  | ['\\'] => false
  | '\\' :: _ :: s => literalEnds quote s
  | c :: s => c = quote || literalEnds quote s

/-- Whether a token, with a text behind it, is read as a longer one. -/
def Token.runsOn (t : Token) (s : List Char) : Bool :=
  match t.kind with
  -- blanks become longer, but that is no other word
  | .space => false
  | .identifier => s.head?.any isWordChar
  | .number => s.head?.any (continuesNumber (t.text.getLastD ' '))
  | .literal => !s.isEmpty && !literalEnds (t.text.headD ' ') t.text.tail
  | .punctuator =>
    (t.text = ['.'] && s.head?.any Char.isDigit) ||
      operators.any fun op => t.text.length < op.length && op.isPrefixOf (t.text ++ s)

/-- Whether the count `m` of characters is more than `n`, as it has to be exactly if a token of `n`
characters runs on. -/
def GoesOn (runs : Bool) (n m : Nat) : Prop := if runs then n < m else m = n

theorem goesOn_add {runs : Bool} {extra : Nat} (h : runs = decide (0 < extra)) (n : Nat) :
    GoesOn runs n (n + extra) := by
  rw [GoesOn, h]
  split
  · rename_i hpos
    have := of_decide_eq_true hpos
    omega
  · rename_i hzero
    have := of_decide_eq_false (Bool.eq_false_iff.2 hzero)
    omega

theorem any_head?_eq_decide (p : Char → Bool) (s : List Char) :
    s.head?.any p = decide (0 < (s.takeWhile p).length) := by
  rcases s with _ | ⟨c, s⟩
  · rfl
  · by_cases hc : p c = true <;> simp [hc]

theorem goesOn_takeWhile {p : Char → Bool} {b : List Char}
    (h : (b.takeWhile p).length = b.length) (s : List Char) :
    GoesOn (s.head?.any p) b.length ((b ++ s).takeWhile p).length := by
  rw [List.takeWhile_append, if_pos h, List.length_append]
  exact goesOn_add (any_head?_eq_decide p s) b.length

theorem numberTail_append {last : Char} {b : List Char} (h : numberTail last b = b.length)
    (s : List Char) : numberTail last (b ++ s) = b.length + numberTail (b.getLastD last) s := by
  induction b generalizing last with
  | nil => simp
  | cons c b ih =>
    rw [numberTail] at h
    split at h
    · rename_i hmore
      have htail : numberTail c b = b.length := by simpa using h
      rw [List.cons_append, numberTail, if_pos hmore, ih htail, List.getLastD_cons,
        List.length_cons]
      omega
    · simp at h

theorem any_continuesNumber_eq_decide (last : Char) (s : List Char) :
    s.head?.any (continuesNumber last) = decide (0 < numberTail last s) := by
  rcases s with _ | ⟨c, s⟩
  · rfl
  · rw [numberTail, List.head?_cons, Option.any_some, continuesNumber]
    split
    · rename_i hmore
      simp [hmore]
    · rename_i hmore
      simp [hmore]

theorem goesOn_numberTail {c : Char} {b : List Char} (h : numberTail c b = b.length)
    (s : List Char) :
    GoesOn (s.head?.any (continuesNumber (b.getLastD c))) b.length (numberTail c (b ++ s)) := by
  rw [numberTail_append h]
  exact goesOn_add (any_continuesNumber_eq_decide _ s) b.length

/-- A literal that is closed ends there. -/
theorem literalTail_append {quote : Char} {b : List Char} (h : literalEnds quote b = true)
    (s : List Char) : literalTail quote (b ++ s) = literalTail quote b := by
  fun_induction literalEnds quote b with
  | case1 => cases h
  | case2 => cases h
  | case3 d b ih => simp only [List.cons_append, literalTail, ih h]
  | case4 c b hlast hescape ih =>
    rw [List.cons_append, literalTail_cons (ne_backslash hlast hescape),
      literalTail_cons (ne_backslash hlast hescape)]
    split
    · rfl
    · rename_i hquote
      rw [ih (by simpa [hquote] using h)]

theorem literalTail_pos (quote c : Char) (s : List Char) : 0 < literalTail quote (c :: s) := by
  by_cases hc : c = '\\'
  · subst hc
    rcases s with _ | ⟨d, s⟩ <;> simp [literalTail]
  · rw [literalTail_cons hc]
    split <;> omega

/-- A literal that is not closed takes what comes. -/
theorem lt_literalTail_append {quote : Char} {b : List Char} (h : literalEnds quote b = false)
    {s : List Char} (hs : s ≠ []) : b.length < literalTail quote (b ++ s) := by
  fun_induction literalEnds quote b with
  | case1 =>
    obtain ⟨c, s, rfl⟩ := List.exists_cons_of_ne_nil hs
    exact literalTail_pos quote c s
  | case2 =>
    obtain ⟨c, s, rfl⟩ := List.exists_cons_of_ne_nil hs
    simp only [List.cons_append, List.nil_append, literalTail, List.length_singleton]
    omega
  | case3 d b ih =>
    have := ih h
    simp only [List.cons_append, literalTail, List.length_cons]
    omega
  | case4 c b hlast hescape ih =>
    obtain ⟨hquote, hopen⟩ : c ≠ quote ∧ literalEnds quote b = false := by simpa using h
    have := ih hopen
    rw [List.cons_append, literalTail_cons (ne_backslash hlast hescape), if_neg hquote,
      List.length_cons]
    omega

theorem goesOn_literalTail {quote : Char} {b : List Char} (h : literalTail quote b = b.length)
    (s : List Char) :
    GoesOn (!s.isEmpty && !literalEnds quote b) b.length (literalTail quote (b ++ s)) := by
  by_cases hclosed : literalEnds quote b = true
  · simp [GoesOn, hclosed, literalTail_append, h]
  · have hopen : literalEnds quote b = false := by simpa using hclosed
    rcases s with _ | ⟨c, s⟩
    · simp [GoesOn, h]
    · simpa [GoesOn, hopen] using lt_literalTail_append hopen (List.cons_ne_nil c s)

theorem lt_operatorTail_iff {c : Char} {b s : List Char} :
    b.length < operatorTail c s ↔
      ∃ op ∈ operators, b.length + 1 < op.length ∧ op <+: c :: s := by
  constructor
  · intro h
    obtain ⟨op, hop, hstart, hlength⟩ := exists_operator_of_pos (Nat.zero_lt_of_lt h)
    exact ⟨op, hop, by omega, hstart⟩
  · rintro ⟨op, hop, hlength, hstart⟩
    have := length_le_of_prefix hop hstart
    omega

theorem goesOn_operatorTail {c : Char} {b : List Char} (h : operatorTail c b = b.length)
    (s : List Char) :
    GoesOn (operators.any fun op => (c :: b).length < op.length && op.isPrefixOf (c :: b ++ s))
      b.length (operatorTail c (b ++ s)) := by
  have hle : b.length ≤ operatorTail c (b ++ s) := h ▸ operatorTail_mono (List.prefix_append b s)
  have hlt := lt_operatorTail_iff (c := c) (b := b) (s := b ++ s)
  simp only [GoesOn, List.any_eq_true, Bool.and_eq_true, decide_eq_true_eq,
    List.isPrefixOf_iff_prefix, List.length_cons, List.cons_append, ← hlt]
  split <;> omega

/-! ## Tokens with a text behind them -/

/-- A text that begins with a number goes on with one. -/
theorem isNumberStart_append {c : Char} {b : List Char}
    (h : (c.isDigit || (c = '.' && b.head?.any Char.isDigit)) = true) (s : List Char) :
    (c.isDigit || (c = '.' && (b ++ s).head?.any Char.isDigit)) = true := by
  rcases b with _ | ⟨d, b⟩
  · have hdigit : c.isDigit = true := by simpa using h
    simp [hdigit]
  · exact h

theorem not_isNumberStart_of_isQuote {c : Char} (h : isQuote c = true) (s : List Char) :
    (c.isDigit || (c = '.' && s.head?.any Char.isDigit)) = false := by
  simp only [isQuote, Bool.or_eq_true, decide_eq_true_eq] at h
  rcases h with rfl | rfl <;> rfl

/-- A point is the only punctuator that can become a number. -/
theorem eq_point_of_isNumberStart_append {c : Char} {b s : List Char}
    (hnumber : ¬ (c.isDigit || (c = '.' && b.head?.any Char.isDigit)) = true)
    (happend : (c.isDigit || (c = '.' && (b ++ s).head?.any Char.isDigit)) = true) :
    c = '.' ∧ b = [] ∧ s.head?.any Char.isDigit = true := by
  simp only [Bool.or_eq_true, Bool.and_eq_true, decide_eq_true_eq, not_or] at hnumber happend
  obtain ⟨hpoint, hdigit⟩ := happend.resolve_left hnumber.1
  rcases b with _ | ⟨d, b⟩
  · exact ⟨hpoint, rfl, hdigit⟩
  · exact absurd ⟨hpoint, hdigit⟩ hnumber.2

theorem extent_point {s : List Char} (h : s.head?.any Char.isDigit = true) :
    0 < (extent '.' s).2 := by
  have hextent : extent '.' s = (.number, numberTail '.' s) := by
    rw [extent, if_neg (by decide), if_neg (by decide), if_pos (by simp [h])]
  rcases s with _ | ⟨d, s⟩
  · cases h
  · have hword : isWordChar d = true := isWordChar_of_isDigit (by simpa using h)
    simp [hextent, numberTail, hword]

theorem GoesOn.ite_extent {runs : Bool} {n m : Nat} (h : GoesOn runs n m) {kind : TokenKind}
    {c : Char} {s : List Char} (hextent : extent c s = (kind, m)) :
    if runs then n < (extent c s).2 else extent c s = (kind, n) := by
  rw [hextent]
  rw [GoesOn] at h
  split
  · rwa [if_pos (by assumption)] at h
  · rw [if_neg (by assumption)] at h
    rw [h]

/-- **How a token is read with a text behind it**: as a longer one if it runs on, and otherwise as
it is. -/
theorem extent_append {kind : TokenKind} {c : Char} {b : List Char}
    (h : extent c b = (kind, b.length)) (hkind : kind ≠ .space) (s : List Char)
    (hidden : List (List Char)) :
    if (Token.mk kind (c :: b) hidden).runsOn s then b.length < (extent c (b ++ s)).2
    else extent c (b ++ s) = (kind, b.length) := by
  by_cases hblank : Text.isBlank c = true
  · simp only [extent, hblank, if_true, Prod.mk.injEq] at h
    exact absurd h.1.symm hkind
  by_cases hword : isWordStart c = true
  · simp only [extent, hblank, hword, if_true, if_false, Prod.mk.injEq, Bool.false_eq_true] at h
    obtain ⟨rfl, hlength⟩ := h
    refine (goesOn_takeWhile hlength s).ite_extent ?_
    simp only [extent, hblank, hword, if_true, if_false, Bool.false_eq_true]
  by_cases hnumber : (c.isDigit || (c = '.' && b.head?.any Char.isDigit)) = true
  · simp only [extent, hblank, hword, hnumber, if_true, if_false, Prod.mk.injEq,
      Bool.false_eq_true] at h
    obtain ⟨rfl, hlength⟩ := h
    rw [Token.runsOn, List.getLastD_cons]
    refine (goesOn_numberTail hlength s).ite_extent ?_
    simp only [extent, hblank, hword, isNumberStart_append hnumber s, if_true, if_false,
      Bool.false_eq_true]
  by_cases hquote : isQuote c = true
  · simp only [extent, hblank, hword, hnumber, hquote, if_true, if_false, Prod.mk.injEq,
      Bool.false_eq_true] at h
    obtain ⟨rfl, hlength⟩ := h
    refine (goesOn_literalTail hlength s).ite_extent ?_
    simp only [extent, hblank, hword, not_isNumberStart_of_isQuote hquote, hquote, if_true,
      if_false, Bool.false_eq_true]
  · simp only [extent, hblank, hword, hnumber, hquote, if_false, Prod.mk.injEq,
      Bool.false_eq_true] at h
    obtain ⟨rfl, hlength⟩ := h
    by_cases hnumber' : (c.isDigit || (c = '.' && (b ++ s).head?.any Char.isDigit)) = true
    · obtain ⟨rfl, rfl, hdigit⟩ := eq_point_of_isNumberStart_append hnumber hnumber'
      simpa [Token.runsOn, hdigit] using extent_point hdigit
    · have hpoint : (decide (c :: b = ['.']) && s.head?.any Char.isDigit) = false := by
        by_contra hpoint
        simp only [Bool.not_eq_false, Bool.and_eq_true, decide_eq_true_eq, List.cons.injEq]
          at hpoint
        obtain ⟨⟨rfl, rfl⟩, hdigit⟩ := hpoint
        exact hnumber' (by simpa using hdigit)
      rw [Token.runsOn, hpoint, Bool.false_or]
      refine (goesOn_operatorTail hlength s).ite_extent ?_
      simp only [extent, hblank, hword, hnumber', hquote, if_false, Bool.false_eq_true]

/-! ## Reading tokens again -/

/-- The tokens that are not blank, hidden names aside. -/
def words (ts : List Token) : List (TokenKind × List Char) :=
  (ts.filter fun t => !t.isSpace).map fun t => (t.kind, t.text)

/-- Whether a token runs on into the text of those behind it. -/
def glues : List Token → Bool
  | [] => false
  | t :: ts => t.runsOn (spelling ts) || glues ts

theorem words_cons_of_isSpace {t : Token} (h : t.isSpace = true) (ts : List Token) :
    words (t :: ts) = words ts := by
  simp [words, h]

theorem words_cons {t : Token} (h : t.isSpace = false) (ts : List Token) :
    words (t :: ts) = (t.kind, t.text) :: words ts := by
  simp [words, h]

theorem isBlank_of_extent_space {c : Char} {s : List Char} (h : (extent c s).1 = .space) :
    Text.isBlank c = true := by
  by_contra hblank
  rw [extent, if_neg hblank] at h
  split at h
  · cases h
  split at h
  · cases h
  split at h <;> cases h

theorem drop_length_takeWhile (p : Char → Bool) (s : List Char) :
    s.drop (s.takeWhile p).length = s.dropWhile p := by
  have hsplit := List.take_append_drop (s.takeWhile p).length s
  rw [take_length_takeWhile] at hsplit
  exact List.append_cancel_left (hsplit.trans List.takeWhile_append_dropWhile.symm)

/-- Blanks in front of a text make no difference to the words in it. -/
theorem words_tokenize_dropWhile (s : List Char) :
    words (tokenize (s.dropWhile Text.isBlank)) = words (tokenize s) := by
  rcases s with _ | ⟨c, s⟩
  · rfl
  · by_cases hblank : Text.isBlank c = true
    · have hextent : extent c s = (.space, (s.takeWhile Text.isBlank).length) := by
        rw [extent, if_pos hblank]
      rw [List.dropWhile_cons_of_pos hblank, tokenize_cons, hextent, drop_length_takeWhile,
        words_cons_of_isSpace rfl]
    · rw [List.dropWhile_cons_of_neg hblank]

theorem words_tokenize_append_of_blank {b : List Char} (h : ∀ c ∈ b, Text.isBlank c = true)
    (s : List Char) : words (tokenize (b ++ s)) = words (tokenize s) := by
  rw [← words_tokenize_dropWhile, List.dropWhile_append_of_pos h, words_tokenize_dropWhile]

/-- A blank token has blank characters only. -/
theorem Token.IsLexeme.isBlank_of_mem {t : Token} (ht : t.IsLexeme) (h : t.isSpace = true) :
    ∀ c ∈ t.text, Text.isBlank c = true := by
  obtain ⟨c, s, htext, hextent⟩ := ht.exists_extent
  have hkind : t.kind = .space := by simpa [Token.isSpace] using h
  rw [hkind] at hextent
  have hblank : Text.isBlank c = true := isBlank_of_extent_space (by rw [hextent])
  rw [extent, if_pos hblank, Prod.mk.injEq] at hextent
  rw [htext]
  refine List.forall_mem_cons.2 ⟨hblank, List.takeWhile_eq_self_iff.1 ?_⟩
  exact (List.takeWhile_prefix _).eq_of_length hextent.2

/-- A token that does not run on is the first one of a line that begins with it, and what is behind
it is read as if it stood alone. -/
theorem words_tokenize_append {t : Token} (ht : t.IsLexeme) (hword : t.isSpace = false)
    {s : List Char} (hstop : t.runsOn s = false) :
    words (tokenize (t.text ++ s)) = (t.kind, t.text) :: words (tokenize s) := by
  obtain ⟨kind, text, hidden⟩ := t
  obtain ⟨c, b, rfl, hextent⟩ := ht.exists_extent
  have happend := extent_append hextent (by simpa [Token.isSpace] using hword) s hidden
  rw [hstop, if_neg Bool.false_ne_true] at happend
  rw [List.cons_append, tokenize_cons, happend, words_cons (by simpa [Token.isSpace] using hword)]
  simp

/-- If the first token of a line runs on, another word is read in its place. -/
theorem words_tokenize_append_ne {t : Token} (ht : t.IsLexeme) (hword : t.isSpace = false)
    {s : List Char} (hruns : t.runsOn s = true) (tail : List (TokenKind × List Char)) :
    words (tokenize (t.text ++ s)) ≠ (t.kind, t.text) :: tail := by
  obtain ⟨kind, text, hidden⟩ := t
  obtain ⟨c, b, rfl, hextent⟩ := ht.exists_extent
  have hkind : kind ≠ .space := by simpa [Token.isSpace] using hword
  have hlonger := extent_append hextent hkind s hidden
  rw [hruns, if_pos rfl] at hlonger
  have hkind' : (extent c (b ++ s)).1 ≠ .space := by
    intro hspace
    have hblank := isBlank_of_extent_space hspace
    rw [extent, if_pos hblank, Prod.mk.injEq] at hextent
    exact hkind hextent.1.symm
  rw [List.cons_append, tokenize_cons, words_cons (by simpa [Token.isSpace] using hkind')]
  intro h
  have htext : (b ++ s).take (extent c (b ++ s)).2 = b := by
    simpa using congrArg Prod.snd (List.cons.inj h).1
  have hlength := congrArg List.length htext
  rw [List.length_take_of_le (extent_le c (b ++ s))] at hlength
  omega

/-- **What is put out is read as the same words, unless a token runs on.** -/
theorem words_tokenize_spelling_iff {ts : List Token} (h : ∀ t ∈ ts, t.IsLexeme) :
    words (tokenize (spelling ts)) = words ts ↔ glues ts = false := by
  induction ts with
  | nil => simp [words, glues]
  | cons t ts ih =>
    obtain ⟨ht, hts⟩ := List.forall_mem_cons.1 h
    rw [spelling_cons, glues, Bool.or_eq_false_iff, ← ih hts]
    by_cases hspace : t.isSpace = true
    · have hkind : t.kind = .space := by simpa [Token.isSpace] using hspace
      rw [words_tokenize_append_of_blank (ht.isBlank_of_mem hspace), words_cons_of_isSpace hspace]
      simp [Token.runsOn, hkind]
    · have hword : t.isSpace = false := by simpa using hspace
      rw [words_cons hword]
      rcases hruns : t.runsOn (spelling ts) with _ | _
      · simp [words_tokenize_append ht hword hruns]
      · simp [words_tokenize_append_ne ht hword hruns]

/-- The tokens of a line do not run on. -/
theorem glues_tokenize (line : List Char) : glues (tokenize line) = false := by
  rw [← words_tokenize_spelling_iff isLexeme_of_mem_tokenize, spelling_tokenize]

/-! ## Tokens of an expansion -/

theorem mem_substitute {body : List Token} {parameters : List (List Char)}
    {arguments : List (List Token)} {t : Token} (h : t ∈ substitute body parameters arguments) :
    t ∈ body ∨ ∃ argument ∈ arguments, t ∈ argument := by
  obtain ⟨u, hu, ht⟩ := List.mem_flatMap.1 h
  split at ht
  · rename_i argument hlookup
    split at ht
    · obtain ⟨before, behind, hsplit, -⟩ := List.lookup_eq_some_iff.1 hlookup
      have hzip : (u.text, argument) ∈ parameters.zip arguments := by simp [hsplit]
      exact .inr ⟨argument, (List.of_mem_zip hzip).2, ht⟩
    · exact .inl (List.mem_singleton.1 ht ▸ hu)
  · exact .inl (List.mem_singleton.1 ht ▸ hu)

/-- What is true of the tokens of a replacement before names are hidden in them, and of the tokens
behind it, is true of all that is read next. -/
theorem forall_mem_replacement {P : Token → Prop} (hhide : ∀ names t, P t → P (t.hide names))
    {xs kept : List Token} (hxs : ∀ x ∈ xs, P x) (hkept : ∀ x ∈ kept, P x)
    (names : List (List Char)) : ∀ x ∈ xs.map (Token.hide names) ++ kept, P x := by
  intro x hx
  rcases List.mem_append.1 hx with hx | hx
  · obtain ⟨y, hy, rfl⟩ := List.mem_map.1 hx
    exact hhide names y (hxs y hy)
  · exact hkept x hx

/-- **An expansion makes no tokens**: what is true of the tokens of a line and of all bodies, hidden
names aside, is true of the tokens of the result. -/
theorem forall_mem_expand {P : Token → Prop} (hhide : ∀ names t, P t → P (t.hide names))
    {table : MacroTable} (hbody : ∀ name m, table.get? name = some m → ∀ t ∈ m.body, P t)
    {ts out : List Token} (hts : ∀ t ∈ ts, P t) (h : expand table ts = .ok out) :
    ∀ t ∈ out, P t := by
  induction ts using (Worklist.sinks_wellFounded table.level).induction generalizing out with
  | _ ts ih =>
  cases ts with
  | nil =>
    rw [expand_nil] at h
    cases h
    simp
  | cons t rest =>
    obtain ⟨ht, hrest⟩ := List.forall_mem_cons.1 hts
    have htail : Worklist.Sinks table.level rest (t :: rest) := sinks_tail (List.Sublist.refl rest)
    rcases unfolds_of_expand h with ⟨-, tail, htail', rfl⟩ | ⟨-, -, tail, htail', rfl⟩ |
      ⟨m, hm, hp, hexpand⟩ |
      ⟨m, hm, parameters, hp, arguments, after, hc, matched, expanded, hmatch, hargs, hexpand⟩
    · exact List.forall_mem_cons.2 ⟨ht, ih rest htail hrest htail'⟩
    · exact List.forall_mem_cons.2 ⟨ht, ih rest htail hrest htail'⟩
    · have hm' := hbody _ m (MacroTable.macroAt?_eq_some_iff.1 hm).2.2
      exact ih _ (sinks_replacement hm m.body (List.Sublist.refl rest))
        (forall_mem_replacement hhide hm' hrest t.trail) hexpand
    · have hm' := hbody _ m (MacroTable.macroAt?_eq_some_iff.1 hm).2.2
      obtain ⟨harguments, hafter⟩ := sublist_of_takeArguments hc
      have hexpanded : ∀ argument ∈ expanded, ∀ x ∈ argument, P x := by
        intro argument hargument
        obtain ⟨raw, hraw, hresult⟩ := exists_of_mem_of_mapM_eq_ok hargs argument hargument
        have hsub := sublist_of_matchArguments hmatch harguments raw hraw
        exact ih raw (sinks_tail hsub) (fun x hx => hrest x (hsub.subset hx)) hresult
      refine ih _ (sinks_replacement hm _ hafter)
        (forall_mem_replacement hhide ?_ (fun x hx => hrest x (hafter.subset hx)) t.trail) hexpand
      intro x hx
      rcases mem_substitute hx with hx | ⟨argument, hargument, hx⟩
      · exact hm' x hx
      · exact hexpanded argument hargument x hx

/-- All tokens of a result are lexemes. -/
theorem isLexeme_of_mem_expand {table : MacroTable} (htable : table.IsTokenized) {line : List Char}
    {ts : List Token} (h : expand table (tokenize line) = .ok ts) : ∀ t ∈ ts, t.IsLexeme :=
  forall_mem_expand (fun names _ ht => ht.hide names)
    (fun name m hm t ht => ((htable name m hm).mem t ht).1) isLexeme_of_mem_tokenize h

/-! ## Tables of a run

Nothing defines a macro but the definitions that a run starts with and the `#define` lines in it,
and both cut the body out of a text. -/

theorem isTokenized_predefine (definitions : List Definition) :
    (predefine definitions).IsTokenized := by
  have hfold (table : MacroTable) (htable : table.IsTokenized) :
      (definitions.foldl
        (fun table d => table.insert d.name.toList (.object d.value.toList))
        table).IsTokenized := by
    induction definitions generalizing table with
    | nil => exact htable
    | cons d definitions ih => exact ih _ (htable.insert ⟨d.value.toList, rfl⟩ _)
  exact hfold {} fun name m hm => by cases hm

theorem isTokenized_of_definition {arguments name : List Char} {m : Macro}
    (h : definition arguments = .ok (name, m)) : m.IsTokenized := by
  rw [definition] at h
  dsimp only at h
  split at h
  · cases h
  split at h
  · cases h
  split at h
  · split at h
    · cases h
    · rename_i parameters body hcut
      obtain ⟨names, -, hm⟩ := bind_eq_ok_iff.1 h
      cases hm
      exact ⟨body, rfl⟩
  · cases h
    exact ⟨_, rfl⟩

section

variable {σ : Type} (h : Include.Handler σ) (file : String)

theorem isTokenized_runAction (a : Action) {s : Session σ} (hs : s.macros.IsTokenized) :
    (runAction h none file a s).1.macros.IsTokenized := by
  rcases a with _ | arguments | arguments | arguments | text | line | name
  · exact hs
  · rw [runAction]
    rcases hdefinition : definition arguments with fault | ⟨name, m⟩
    · exact hs
    · simp only [bind, Except.bind]
      rcases hdefine : s.macros.define? name m with _ | table
      · exact hs
      · exact hs.define? (isTokenized_of_definition hdefinition) hdefine
  · rw [runAction]
    rcases macroName "undef" arguments with fault | name
    · exact hs
    · exact hs.erase name
  · rw [runAction, runInclude]
    split <;> exact hs
  · exact hs
  · exact hs
  · exact hs

theorem macros_report (s : Session σ) (line : Nat) (fault : Option Fault) :
    (s.report file line fault).macros = s.macros := by
  rcases fault with _ | fault <;> rfl

theorem macros_runText (line : List Char) (s : Session σ) :
    (runText line s).1.macros = s.macros := by
  rw [runText]
  split <;> rfl

theorem isTokenized_runStripped (number : Nat) (line : Line) {st : FileState σ}
    (hst : st.session.macros.IsTokenized) :
    (runStripped h none file number line st).session.macros.IsTokenized := by
  obtain ⟨groups, inBlock, s⟩ := st
  rcases line with text | c | a
  · simp only [runStripped]
    split
    · rwa [macros_report, macros_runText]
    · exact hst
  · simp only [runStripped]
    rwa [macros_report]
  · rw [runStripped_action]
    split
    · rw [macros_report]
      exact isTokenized_runAction h file a hst
    · exact hst

theorem isTokenized_runLine (line : LogicalLine) {st : FileState σ}
    (hst : st.session.macros.IsTokenized) :
    (runLine h none file st line).session.macros.IsTokenized := by
  rw [runLine_eq]
  exact isTokenized_runStripped h file _ _ hst

end

/-- A step keeps the table as it is, or runs a line that includes nothing. -/
theorem isTokenized_step {σ : Type} (h : Include.Handler σ) (maxDepth : Nat) {r : IncludeRun σ}
    (hr : r.session.macros.IsTokenized) : (r.step h maxDepth).session.macros.IsTokenized := by
  by_cases hfiles : r.files = []
  · rwa [IncludeRun.step_of_files_eq_nil hfiles]
  · have hstep : IncludeRun.Stepped h maxDepth r (r.step h maxDepth) :=
      IncludeRun.stepped_step hfiles
    generalize r.step h maxDepth = r' at hstep
    rcases hstep with hlines | ⟨hlines, hasked⟩ | ⟨hlines, hasked, hanswer⟩ |
      ⟨hlines, hasked, hanswer⟩
    · simp only [finish, macros_report]
      exact hr
    · exact isTokenized_runLine h _ _ hr
    · rw [macros_report]
      exact hr
    · exact hr

/-- **Every body that a run ever has in its table is cut out of a text.** -/
theorem isTokenized_iterate_step {σ : Type} (h : Include.Handler σ) (maxDepth : Nat)
    (source : Source) (handler : σ) (n : Nat) :
    ((IncludeRun.step h maxDepth)^[n] (.start source handler)).session.macros.IsTokenized := by
  induction n with
  | zero => exact isTokenized_predefine source.definitions
  | succ n ih =>
    rw [Function.iterate_succ_apply']
    exact isTokenized_step h maxDepth ih

/-! ## Lines of text -/

/-- **A line is read as the words that it is expanded to, exactly if none of them runs on.** -/
theorem words_runText {σ : Type} {s : Session σ} (hs : s.macros.IsTokenized) {line : List Char}
    {ts : List Token} (h : expand s.macros (tokenize line) = .ok ts) :
    ∃ out, runText line s = (s.emit out, none) ∧
      (words (tokenize out) = words ts ↔ glues ts = false) := by
  refine ⟨spelling ts, ?_, words_tokenize_spelling_iff (isLexeme_of_mem_expand hs h)⟩
  rw [runText, h]

/-- The session of a run that starts with `M` for `-1`. -/
def minusSession : Session Unit where
  macros := predefine [⟨"M", "-1"⟩]
  output := #[]
  diagnostics := #[]
  handler := ()

/-- What becomes of `x = - M;` there. -/
def minusApart : List Token :=
  [⟨.identifier, ['x'], []⟩, ⟨.space, [' '], []⟩, ⟨.punctuator, ['='], []⟩, ⟨.space, [' '], []⟩,
    ⟨.punctuator, ['-'], []⟩, ⟨.space, [' '], []⟩, ⟨.punctuator, ['-'], [['M']]⟩,
    ⟨.number, ['1'], [['M']]⟩, ⟨.punctuator, [';'], []⟩]

/-- What becomes of `x = -M;` there. -/
def minusTogether : List Token :=
  [⟨.identifier, ['x'], []⟩, ⟨.space, [' '], []⟩, ⟨.punctuator, ['='], []⟩, ⟨.space, [' '], []⟩,
    ⟨.punctuator, ['-'], []⟩, ⟨.punctuator, ['-'], [['M']]⟩, ⟨.number, ['1'], [['M']]⟩,
    ⟨.punctuator, [';'], []⟩]

/-- With a blank between the two minus signs the line is read as it was meant. -/
theorem words_runText_minusApart :
    expand minusSession.macros (tokenize "x = - M;".toList) = .ok minusApart ∧
      ∃ out, runText "x = - M;".toList minusSession = (minusSession.emit out, none) ∧
        words (tokenize out) = words minusApart := by
  have hexpand : expand minusSession.macros (tokenize "x = - M;".toList) = .ok minusApart :=
    Machine.expand_eq_of_halted (n := 12) (by decide +kernel)
  obtain ⟨out, hout, hwords⟩ := words_runText (isTokenized_predefine [⟨"M", "-1"⟩]) hexpand
  exact ⟨hexpand, out, hout, hwords.2 (by decide +kernel)⟩

/-- Without it the two signs are put out as `--`, and read as that. -/
theorem glued_in_output :
    minusSession.macros.IsTokenized ∧
      expand minusSession.macros (tokenize "x = -M;".toList) = .ok minusTogether ∧
      runText "x = -M;".toList minusSession = (minusSession.emit "x = --1;".toList, none) ∧
      words (tokenize "x = --1;".toList) ≠ words minusTogether := by
  have hexpand : expand minusSession.macros (tokenize "x = -M;".toList) = .ok minusTogether :=
    Machine.expand_eq_of_halted (n := 11) (by decide +kernel)
  refine ⟨isTokenized_predefine _, hexpand, ?_, ?_⟩
  · rw [runText, hexpand]
    rfl
  · have hread : (words (tokenize "x = --1;".toList)).length = 5 := by decide +kernel
    have hmeant : (words minusTogether).length = 6 := by decide
    intro h
    rw [h, hmeant] at hread
    omega

end Preprocess
end ShaderKit
