import ShaderKit.Proofs.CommentScan
import ShaderKit.Proofs.Lexemes

/-!
# Lines without comments

Comments and tokens are found by two machines that know nothing of each other, and both have to tell
literals from the rest of a line.  They agree.  A line from which the comments have been taken has
none left, not even one that came about when its neighbours moved together, and where the tokenizer
sees no literal there is nothing that could begin a comment (`stripComments_settled`).

Both statements are about lines that `scan` passes on as they are, `IsUncommented`.  What it puts
out is such a line (`isUncommented_scan`), and so is what is left of such a line behind any token of
it (`IsUncommented.drop_extent`): where a token ends, the scanner is back in the code.
-/

set_option autoImplicit false

namespace ShaderKit
namespace Preprocess

/-! ## Lines that are passed on -/

/-- Nothing is taken out of the line if the reading begins in that region. -/
def IsUncommented (region : Region) (line : List Char) : Prop := scan region line = (line, false)

theorem scan_nil {region : Region} (h : region ≠ .block) : scan region [] = ([], false) := by
  cases region with
  | block => exact absurd rfl h
  | code => rfl
  | literal quote => rfl

/-- With these characters a comment begins. -/
def OpensComment (c : Char) (s : List Char) : Prop :=
  c = '/' ∧ (s.head? = some '/' ∨ s.head? = some '*')

/-- Where the reading is behind a character of the code. -/
def Region.afterCode (c : Char) : Region := if isQuote c then .literal c else .code

theorem scan_code_cons {c : Char} {s : List Char} (h : ¬ OpensComment c s) :
    scan .code (c :: s) = (c :: (scan (.afterCode c) s).1, (scan (.afterCode c) s).2) := by
  rw [scan, Region.afterCode]
  · rintro s' rfl rfl
    exact h ⟨rfl, .inl rfl⟩
  · rintro s' rfl rfl
    exact h ⟨rfl, .inr rfl⟩

/-- A comment makes a line shorter. -/
theorem length_scan_lt_of_opensComment {c : Char} {s : List Char} (h : OpensComment c s) :
    (scan .code (c :: s)).1.length < (c :: s).length := by
  obtain ⟨rfl, hnext⟩ := h
  rcases hnext with hnext | hnext
  · obtain ⟨s, rfl⟩ := List.head?_eq_some_iff.1 hnext
    exact Nat.succ_pos _
  · obtain ⟨s, rfl⟩ := List.head?_eq_some_iff.1 hnext
    exact Nat.lt_succ_of_lt (Nat.lt_succ_of_le (length_scan_le .block s))

theorem isUncommented_code_cons {c : Char} {s : List Char} :
    IsUncommented .code (c :: s) ↔ ¬ OpensComment c s ∧ IsUncommented (.afterCode c) s := by
  by_cases hopens : OpensComment c s
  · have hshorter := length_scan_lt_of_opensComment hopens
    refine iff_of_false (fun hline => ?_) fun h => h.1 hopens
    rw [IsUncommented] at hline
    rw [hline] at hshorter
    exact Nat.lt_irrefl _ hshorter
  · rw [IsUncommented, IsUncommented, scan_code_cons hopens, Prod.ext_iff, Prod.ext_iff]
    simp [hopens]

theorem isUncommented_literal_escape {quote c : Char} {s : List Char} :
    IsUncommented (.literal quote) ('\\' :: c :: s) ↔ IsUncommented (.literal quote) s := by
  rw [IsUncommented, IsUncommented, scan, Prod.ext_iff, Prod.ext_iff]
  simp

theorem isUncommented_literal_cons {quote c : Char} {s : List Char}
    (hescape : ∀ d s', c = '\\' → s = d :: s' → False) :
    IsUncommented (.literal quote) (c :: s) ↔
      IsUncommented (if c = quote then .code else .literal quote) s := by
  rw [IsUncommented, IsUncommented, scan, Prod.ext_iff, Prod.ext_iff]
  · simp
  · exact fun d s' hc hs => hescape d s' hc hs

/-! ## What is left of a line -/

/-- Where the text that is put out is read again: what is put out inside a comment is code. -/
def Region.outside : Region → Region
  | .block => .code
  | region => region

theorem Region.outside_eq {region : Region} (h : region ≠ .block) : region.outside = region := by
  cases region with
  | block => exact absurd rfl h
  | code => rfl
  | literal quote => rfl

theorem Region.afterCode_ne_block (c : Char) : Region.afterCode c ≠ .block := by
  rw [afterCode]
  split <;> simp

/-- The blank that may stand at the end of a line. -/
def IsFinalBlank (s : List Char) : Prop := s = [] ∨ s = [' ']

theorem isUncommented_finalBlank {blank : List Char} (hblank : IsFinalBlank blank)
    (region : Region) : IsUncommented region.outside blank := by
  rcases hblank with rfl | rfl
  · cases region <;> rfl
  · cases region with
    | code => rfl
    | block => rfl
    | literal quote =>
      refine (isUncommented_literal_cons fun _ _ hc => absurd hc (by decide)).2 ?_
      split <;> rfl

/-- The code goes on with the same character after the comments are taken out, unless a comment
begins there. -/
theorem not_opensComment_scan {c : Char} {s blank : List Char} (h : ¬ OpensComment c s)
    (hblank : IsFinalBlank blank) : ¬ OpensComment c ((scan (.afterCode c) s).1 ++ blank) := by
  rintro ⟨rfl, hnext⟩
  change (((scan .code s).1 ++ blank).head? = _ ∨ ((scan .code s).1 ++ blank).head? = _) at hnext
  rcases s with _ | ⟨d, s⟩
  · rcases hblank with rfl | rfl <;> simp [scan] at hnext
  · have hd : ¬ OpensComment d s := by
      rintro ⟨rfl, -⟩
      exact h ⟨rfl, .inl rfl⟩
    rw [scan_code_cons hd] at hnext
    exact h ⟨rfl, hnext⟩

/-- **Nothing is left to be taken out of what is put out**, whether or not a blank is added. -/
theorem isUncommented_scan (region : Region) (line : List Char) {blank : List Char}
    (hblank : IsFinalBlank blank) :
    IsUncommented region.outside ((scan region line).1 ++ blank) := by
  fun_induction scan region line with
  | case1 => exact isUncommented_finalBlank hblank .block
  | case2 region => exact isUncommented_finalBlank hblank region
  | case3 => exact isUncommented_finalBlank hblank .code
  | case4 s ih => exact ih
  | case5 c s hslash hstar out inBlock hscan ih =>
    have hopens : ¬ OpensComment c s := by
      rintro ⟨rfl, hnext | hnext⟩
      · exact (List.head?_eq_some_iff.1 hnext).elim fun s' hs => hslash s' rfl hs
      · exact (List.head?_eq_some_iff.1 hnext).elim fun s' hs => hstar s' rfl hs
    have hafter := not_opensComment_scan hopens hblank
    rw [← Region.afterCode] at hscan
    rw [← Region.afterCode, hscan] at ih
    rw [hscan] at hafter
    rw [Region.outside_eq (Region.afterCode_ne_block c)] at ih
    exact isUncommented_code_cons.2 ⟨hafter, ih⟩
  | case6 s out inBlock hscan ih =>
    rw [hscan] at ih
    exact isUncommented_code_cons.2 ⟨fun h => absurd h.1 (by decide), ih⟩
  | case7 s c hend ih => exact ih
  | case8 quote c s out inBlock hscan ih =>
    rw [hscan] at ih
    exact isUncommented_literal_escape.2 ih
  | case9 quote c s hescape out inBlock hscan ih =>
    have hnext : (if c = quote then Region.code else .literal quote) ≠ .block := by
      split <;> simp
    rw [hscan, Region.outside_eq hnext] at ih
    by_cases hc : c = '\\'
    · -- A backslash ends the line: in front of a blank it is an escape, but it was none before.
      have hend : s = [] := by
        by_contra hs
        obtain ⟨d, s', rfl⟩ := List.exists_cons_of_ne_nil hs
        exact hescape d s' hc rfl
      have hout : out = [] := by
        rw [hend, scan_nil hnext] at hscan
        exact (congrArg Prod.fst hscan).symm
      rw [hout, hc]
      rcases hblank with rfl | rfl
      · refine (isUncommented_literal_cons ?_).2 (scan_nil ?_)
        · simp
        · split <;> simp
      · exact isUncommented_literal_escape.2 rfl
    · exact (isUncommented_literal_cons fun _ _ hc' => absurd hc' hc).2 ih

/-! ## Tokens of such a line -/

/-- A text without quotation marks, taken off a line that is passed on, has no comment in it, and
behind it the line is passed on as well. -/
theorem IsUncommented.of_append {text rest : List Char} (htext : ∀ c ∈ text, isQuote c = false)
    (h : IsUncommented .code (text ++ rest)) : IsUncommented .code rest := by
  induction text with
  | nil => exact h
  | cons c text ih =>
    obtain ⟨hc, htext⟩ := List.forall_mem_cons.1 htext
    have hnext := (isUncommented_code_cons.1 h).2
    rw [Region.afterCode, hc] at hnext
    exact ih htext hnext

/-- Nothing in such a text begins a comment. -/
theorem IsUncommented.not_infix {text rest : List Char} (htext : ∀ c ∈ text, isQuote c = false)
    (h : IsUncommented .code (text ++ rest)) :
    ¬ ['/', '/'] <:+: text ∧ ¬ ['/', '*'] <:+: text := by
  have hplace (d : Char) (hd : d = '/' ∨ d = '*') : ¬ ['/', d] <:+: text := by
    rintro ⟨front, back, rfl⟩
    rw [List.append_assoc, List.append_assoc] at h
    have hfront : ∀ c ∈ front, isQuote c = false := fun c hc => htext c (by simp [hc])
    have hopens := (isUncommented_code_cons.1 (h.of_append hfront)).1
    exact hopens ⟨rfl, hd.imp (congrArg some) (congrArg some)⟩
  exact ⟨hplace '/' (.inl rfl), hplace '*' (.inr rfl)⟩

/-- **The two machines agree where a literal ends.** -/
theorem IsUncommented.drop_literalTail {quote : Char} {s : List Char}
    (h : IsUncommented (.literal quote) s) :
    IsUncommented .code (s.drop (literalTail quote s)) := by
  fun_induction literalTail quote s with
  | case1 => rfl
  | case2 => rfl
  | case3 d s ih => exact ih (isUncommented_literal_escape.1 h)
  | case4 s hlast hescape =>
    have hnext := (isUncommented_literal_cons hescape).1 h
    rwa [if_pos rfl] at hnext
  | case5 c s hlast hescape hquote ih =>
    have hnext := (isUncommented_literal_cons hescape).1 h
    rw [if_neg hquote] at hnext
    exact ih hnext

/-! ### Tokens that are no literals -/

theorem not_isQuote_take_numberTail (last : Char) (s : List Char) :
    ∀ d ∈ s.take (numberTail last s), isQuote d = false := by
  fun_induction numberTail last s with
  | case1 => simp
  | case2 last c s hmore ih =>
    refine List.forall_mem_cons.2 ⟨?_, ih⟩
    simp only [Bool.or_eq_true, Bool.and_eq_true, decide_eq_true_eq] at hmore
    rcases hmore with (hword | rfl) | ⟨rfl | rfl, -⟩
    · exact (notMark_of_isWordChar hword).2
    · decide
    · decide
    · decide
  | case3 => simp

theorem not_isQuote_of_mem_operators {op : List Char} (hop : op ∈ operators) :
    ∀ d ∈ op, isQuote d = false := by
  have hall : (operators.all fun op => op.all fun d => !isQuote d) = true := by decide
  simpa using List.all_eq_true.1 hall op hop

theorem not_isQuote_take_operatorTail (c : Char) (s : List Char) :
    ∀ d ∈ s.take (operatorTail c s), isQuote d = false := by
  rcases Nat.eq_zero_or_pos (operatorTail c s) with hzero | hpos
  · simp [hzero]
  · obtain ⟨op, hop, hstart, hlength⟩ := exists_operator_of_pos hpos
    have htake : op = c :: s.take (operatorTail c s) := by
      rw [List.prefix_iff_eq_take.1 hstart, hlength, List.take_succ_cons]
    intro d hd
    exact not_isQuote_of_mem_operators hop d (htake ▸ List.mem_cons_of_mem c hd)

/-- Quotation marks are in literals only. -/
theorem not_isQuote_of_extent {c : Char} {s : List Char} (h : (extent c s).1 ≠ .literal) :
    ∀ d ∈ c :: s.take (extent c s).2, isQuote d = false := by
  have htake (p : Char → Bool) (hp : ∀ d, p d = true → isQuote d = false) :
      ∀ d ∈ s.take (s.takeWhile p).length, isQuote d = false := by
    intro d hd
    rw [take_length_takeWhile] at hd
    exact hp d (List.mem_takeWhile_imp hd)
  rw [extent] at h ⊢
  split
  · rename_i hblank
    exact List.forall_mem_cons.2
      ⟨(notMark_of_isBlank hblank).2, htake _ fun d hd => (notMark_of_isBlank hd).2⟩
  split
  · rename_i hword
    exact List.forall_mem_cons.2 ⟨(notMark_of_isWordChar (isWordChar_of_isWordStart hword)).2,
      htake _ fun d hd => (notMark_of_isWordChar hd).2⟩
  split
  · rename_i hnumber
    refine List.forall_mem_cons.2 ⟨?_, not_isQuote_take_numberTail c s⟩
    simp only [Bool.or_eq_true, Bool.and_eq_true, decide_eq_true_eq] at hnumber
    rcases hnumber with hdigit | ⟨rfl, -⟩
    · exact (notMark_of_isWordChar (isWordChar_of_isDigit hdigit)).2
    · decide
  split
  · simp_all
  · rename_i hquote
    exact List.forall_mem_cons.2 ⟨by simpa using hquote, not_isQuote_take_operatorTail c s⟩

theorem extent_of_literal {c : Char} {s : List Char} (h : (extent c s).1 = .literal) :
    isQuote c = true ∧ (extent c s).2 = literalTail c s := by
  revert h
  rw [extent]
  split
  · simp
  split
  · simp
  split
  · simp
  split <;> simp_all

/-- Where a token ends, the scanner is back in the code. -/
theorem IsUncommented.drop_extent {c : Char} {s : List Char} (h : IsUncommented .code (c :: s)) :
    IsUncommented .code (s.drop (extent c s).2) := by
  by_cases hkind : (extent c s).1 = .literal
  · obtain ⟨hquote, hend⟩ := extent_of_literal hkind
    have hinside := (isUncommented_code_cons.1 h).2
    rw [Region.afterCode, if_pos hquote] at hinside
    rw [hend]
    exact hinside.drop_literalTail
  · refine of_append (not_isQuote_of_extent hkind) ?_
    rwa [List.cons_append, List.take_append_drop]

theorem not_isQuote_of_mem_tokenize {line : List Char} :
    ∀ t ∈ tokenize line, t.kind ≠ .literal → ∀ d ∈ t.text, isQuote d = false := by
  intro t ht hkind
  obtain ⟨c, s, htext, hextent⟩ := (isLexeme_of_mem_tokenize t ht).exists_extent
  have hquote := not_isQuote_of_extent (c := c) (s := s) (by rwa [hextent])
  rwa [hextent, List.take_length, ← htext] at hquote

theorem IsUncommented.spelling_of_tokenize {line : List Char} (h : IsUncommented .code line)
    {before rest : List Token} (htokens : tokenize line = before ++ rest) :
    IsUncommented .code (spelling rest) := by
  induction before generalizing line with
  | nil =>
    rw [List.nil_append] at htokens
    rwa [← htokens, spelling_tokenize]
  | cons t before ih =>
    rcases line with _ | ⟨c, s⟩
    · rw [tokenize_nil] at htokens
      cases htokens
    · rw [tokenize_cons, List.cons_append, List.cons.injEq] at htokens
      exact ih h.drop_extent htokens.2

/-- **A line without comments is settled.**  Whatever a line has been stripped of, from inside a
block comment or not, stripping it again leaves it as it is, and no comment is open after it; and
however many tokens that are no literals stand side by side, no comment begins in what they
spell. -/
theorem stripComments_settled (inBlock : Bool) (line : List Char) :
    stripComments false (stripComments inBlock line).1 = ((stripComments inBlock line).1, false) ∧
      ∀ before run after : List Token,
        tokenize (stripComments inBlock line).1 = before ++ (run ++ after) →
        (∀ t ∈ run, t.kind ≠ .literal) →
        ¬ ['/', '/'] <:+: spelling run ∧ ¬ ['/', '*'] <:+: spelling run := by
  have hline : IsUncommented .code (stripComments inBlock line).1 := by
    have hregion : (if inBlock then Region.block else .code).outside = .code := by
      cases inBlock <;> rfl
    rw [← hregion, stripComments]
    generalize (if inBlock then Region.block else .code) = region
    dsimp only
    split
    · exact isUncommented_scan region line (.inr rfl)
    · have hplain := isUncommented_scan region line (.inl rfl)
      rwa [List.append_nil] at hplain
  refine ⟨stripComments_of_scan hline, fun before run after htokens hkinds => ?_⟩
  have hrest := hline.spelling_of_tokenize htokens
  rw [spelling_append] at hrest
  refine hrest.not_infix fun d hd => ?_
  obtain ⟨t, ht, hd⟩ := List.mem_flatMap.1 hd
  have hmem : t ∈ tokenize (stripComments inBlock line).1 := by
    rw [htokens]
    exact List.mem_append_right _ (List.mem_append_left _ ht)
  exact not_isQuote_of_mem_tokenize t hmem (hkinds t ht) d hd

/-- The slashes on the two sides of the comment stay apart, and the apostrophe in it opens
nothing. -/
def slashedLine : List Char := "a/* ' *// '//'".toList

/-- The tokens of that line up to the literal. -/
def slashedTokens : List Token :=
  [⟨.identifier, ['a'], []⟩, ⟨.space, [' '], []⟩, ⟨.punctuator, ['/'], []⟩, ⟨.space, [' '], []⟩]

theorem stripComments_settled_slashes :
    (stripComments false slashedLine).1 = "a / '//'".toList ∧
      stripComments false "a / '//'".toList = ("a / '//'".toList, false) ∧
      tokenize "a / '//'".toList =
        [] ++ (slashedTokens ++ [⟨.literal, "'//'".toList, []⟩]) ∧
      (∀ t ∈ slashedTokens, t.kind ≠ .literal) ∧
      ¬ ['/', '/'] <:+: spelling slashedTokens ∧ ¬ ['/', '*'] <:+: spelling slashedTokens := by
  have hstrip : (stripComments false slashedLine).1 = "a / '//'".toList := by decide
  have htokens : tokenize "a / '//'".toList =
      [] ++ (slashedTokens ++ [⟨.literal, "'//'".toList, []⟩]) := by decide +kernel
  have hkinds : ∀ t ∈ slashedTokens, t.kind ≠ .literal := by decide
  obtain ⟨hagain, hruns⟩ := stripComments_settled false slashedLine
  rw [hstrip] at hagain hruns
  exact ⟨hstrip, hagain, htokens, hkinds, hruns [] slashedTokens _ htokens hkinds⟩

end Preprocess
end ShaderKit
