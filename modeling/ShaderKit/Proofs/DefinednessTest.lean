import ShaderKit.Proofs.AbsentName
import ShaderKit.Proofs.ConditionReading
import ShaderKit.Proofs.GroupStack

/-!
# Asking whether a name is defined

There are two ways to ask whether a name is defined, and they share no code.  `#ifdef` takes the
first word behind it for the name.  An `#if` cuts its text into tokens, answers the `defined` in
front of the name, expands what is left, and evaluates that.

`AsksLine` lists the lines that ask, with any blanks between their parts.  All of them come to one
thing (`runLine_of_asksLine`): they open a group that is kept, or is not, by whether the table has
the name, and nothing is reported.  What the name stands for does not matter, as it is gone before
anything is expanded: no token that is left over is a name (`Asks.exists_answer`).
-/

set_option autoImplicit false

namespace ShaderKit
namespace Preprocess

/-! ## Words and their neighbours -/

theorem isLexeme_of_isWord {word : List Char} (h : isWord word = true) :
    Token.IsLexeme ⟨.identifier, word, []⟩ := by
  rcases word with _ | ⟨c, rest⟩
  · cases h
  · rw [isWord, Bool.and_eq_true, List.all_eq_true] at h
    have hblank : Text.isBlank c = false := isBlank_of_isWordChar (isWordChar_of_isWordStart h.1)
    refine ⟨c, rest, rfl, ?_⟩
    rw [extent, if_neg (by simp [hblank]), if_pos h.1, List.takeWhile_eq_self_iff.2 h.2]

/-- A word is read as such if no further character of a word follows. -/
theorem words_tokenize_word {word s : List Char} (hword : isWord word = true)
    (hs : s.head?.any isWordChar = false) :
    words (tokenize (word ++ s)) = (.identifier, word) :: words (tokenize s) :=
  words_tokenize_append (isLexeme_of_isWord hword) rfl hs

/-- A character that is a punctuator is read alone if it does not run on. -/
theorem words_tokenize_punctuator {c : Char} {s : List Char}
    (hc : extent c [] = (.punctuator, 0)) (hs : Token.runsOn ⟨.punctuator, [c], []⟩ s = false) :
    words (tokenize (c :: s)) = (.punctuator, [c]) :: words (tokenize s) :=
  words_tokenize_append (t := ⟨.punctuator, [c], []⟩) ⟨c, [], rfl, hc⟩ rfl hs

/-- The tokens of a line that are not blank are known by their words, as they hide nothing. -/
theorem filter_tokenize_eq (line : List Char) :
    (tokenize line).filter (fun t => !t.isSpace) =
      (words (tokenize line)).map fun w => ⟨w.1, w.2, []⟩ := by
  rw [words, List.map_map]
  refine (List.map_congr_left fun t ht => ?_).trans (List.map_id _) |>.symm
  have hhidden := hidden_of_mem_tokenize t (List.mem_filter.1 ht).1
  obtain ⟨kind, text, hidden⟩ := t
  rw [← show hidden = [] from hhidden]
  rfl

/-- A word ends where blanks follow, or anything else that is not of a word. -/
theorem head?_any_append_of_blank {gap s : List Char} (hgap : Text.IsBlankText gap)
    (hs : gap = [] → s.head?.any isWordChar = false) :
    (gap ++ s).head?.any isWordChar = false := by
  rcases gap with _ | ⟨c, gap⟩
  · exact hs rfl
  · exact isWordChar_of_isBlank (hgap c (List.mem_cons_self ..))

theorem split_word {word s : List Char} (hword : IsWordText word)
    (hs : s.head?.any isWordChar = false) :
    (word ++ s).takeWhile isWordChar = word ∧ (word ++ s).dropWhile isWordChar = s := by
  rw [List.takeWhile_append_of_pos hword, List.dropWhile_append_of_pos hword]
  rcases s with _ | ⟨c, s⟩
  · simp
  · have hc : isWordChar c = false := hs
    simp [hc]

/-- Nothing but an equality sign goes on with an exclamation mark. -/
theorem runsOn_exclamation {s : List Char} (hs : s.head? ≠ some '=') :
    Token.runsOn ⟨.punctuator, ['!'], []⟩ s = false := by
  rcases s with _ | ⟨c, s⟩
  · rfl
  · have hc : ('=' == c) = false := beq_false_of_ne fun heq => hs (by rw [heq]; rfl)
    simp [Token.runsOn, operators, List.isPrefixOf, hc]

/-! ## Lines that ask -/

/-- The name stands behind `defined`, alone or in parentheses. -/
inductive DefinedOf (name : List Char) : List Char → Prop
  | bare {gap : List Char} (hgap : Text.IsBlankText gap) (hne : gap ≠ []) :
      DefinedOf name ("defined".toList ++ (gap ++ name))
  | enclosed {before inner after : List Char} (hbefore : Text.IsBlankText before)
      (hinner : Text.IsBlankText inner) (hafter : Text.IsBlankText after) :
      DefinedOf name ("defined".toList ++ (before ++ '(' :: (inner ++ (name ++ (after ++ [')'])))))

/-- The directive with that text asks whether the name is defined, and wants that answer. -/
inductive Asks (name : List Char) : (wanted : Bool) → Opening → List Char → Prop
  | ifdef : Asks name true .defined name
  | ifndef : Asks name false .undefined name
  | ifDefined {question : List Char} (h : DefinedOf name question) :
      Asks name true .condition question
  | ifNotDefined {gap question : List Char} (hgap : Text.IsBlankText gap)
      (h : DefinedOf name question) : Asks name false .condition ('!' :: (gap ++ question))

/-- How the directive is written that opens a group. -/
def Opening.word : Opening → List Char
  | .condition => "if".toList
  | .defined => "ifdef".toList
  | .undefined => "ifndef".toList

/-- The line asks whether the name is defined.  Blanks may stand between its parts; behind the name
of the directive they must, but for an exclamation mark. -/
inductive AsksLine (name : List Char) (wanted : Bool) : List Char → Prop
  | intro {opening : Opening} {arguments front inner gap back : List Char}
      (hasks : Asks name wanted opening arguments) (hfront : Text.IsBlankText front)
      (hinner : Text.IsBlankText inner) (hgap : Text.IsBlankText gap)
      (hback : Text.IsBlankText back) (hapart : gap = [] → arguments.head? = some '!') :
      AsksLine name wanted
        (front ++ '#' :: (inner ++ (opening.word ++ (gap ++ (arguments ++ back)))))

/-- What does not ask is left alone. -/
theorem answerDefined_cons_of_not {t : Token} (ht : t.isIdentifier "defined" = false)
    (table : MacroTable) (ts : List Token) :
    answerDefined table (t :: ts) =
      (answerDefined table ts >>= fun us => .ok (t :: blankToken :: us)) := by
  rw [answerDefined.eq_def]
  simp only [ht, Bool.false_eq_true, if_false]
  rfl

/-! ## Answers -/

/-- The token in the place of a question is a constant. -/
theorem phrase_definedness (table : MacroTable) (name : List Char) :
    Phrase 11 [definedness table name] (.constant (if table.isDefined name then 1 else 0)) := by
  refine .constant rfl ?_
  rw [definedness]
  split
  · exact isConstant_one
  · exact isConstant_zero

theorem evaluate_definedness (table : MacroTable) (name : List Char) :
    evaluate [definedness table name, blankToken] =
      .ok (if table.isDefined name then 1 else 0) := by
  have hexpr : IsExpression [definedness table name, blankToken] _ :=
    (phrase_definedness table name).loosen (Nat.zero_le 11) (Nat.le_refl 11)
  rw [hexpr.evaluate_eq_run, Condition.run]
  split <;> rfl

theorem evaluate_not_definedness (table : MacroTable) (name : List Char) :
    evaluate [⟨.punctuator, ['!'], []⟩, blankToken, definedness table name, blankToken] =
      .ok (if table.isDefined name then 0 else 1) := by
  have hoperator : ("!", .not) ∈ prefixOperators := mem_prefixOperators_iff.2 rfl
  have hnot : Phrase 11 [⟨.punctuator, ['!'], []⟩, definedness table name] _ :=
    .unary hoperator rfl (phrase_definedness table name)
  have hexpr : IsExpression
      [⟨.punctuator, ['!'], []⟩, blankToken, definedness table name, blankToken] _ :=
    hnot.loosen (Nat.zero_le 11) (Nat.le_refl 11)
  rw [hexpr.evaluate_eq_run, Condition.run, Condition.run]
  split <;> rfl

/-- Where no name is left over, nothing is expanded. -/
theorem expand_of_no_identifier {table : MacroTable} {ts : List Token}
    (hnames : ∀ t ∈ ts, t.kind ≠ .identifier) : expand table ts = .ok ts :=
  expand_of_forall fun t ht => by simp [MacroTable.macroAt?, hnames t ht]

theorem condition_of_answered {table : MacroTable} {arguments : List Char} {ts : List Token}
    {v : Int64}
    (hanswer : answerDefined table ((tokenize arguments).filter fun t => !t.isSpace) = .ok ts)
    (hnames : ∀ t ∈ ts, t.kind ≠ .identifier) (hvalue : evaluate ts = .ok v) :
    condition table arguments = .ok (v ≠ 0) := by
  rw [condition, hanswer]
  change ((expand table ts).mapError Fault.expansion >>= _) = _
  rw [expand_of_no_identifier hnames]
  change ((evaluate ts).mapError Fault.condition >>= _) = _
  rw [hvalue]
  rfl

section

variable {name : List Char} (hname : isWord name = true)

include hname

/-! ## What is asked -/

theorem DefinedOf.words_eq {question : List Char} (h : DefinedOf name question) :
    words (tokenize question) = [(.identifier, "defined".toList), (.identifier, name)] ∨
      words (tokenize question) =
        [(.identifier, "defined".toList), (.punctuator, ['(']), (.identifier, name),
          (.punctuator, [')'])] := by
  have hdefined : isWord "defined".toList = true := by decide
  have hend : words (tokenize [')']) = [(.punctuator, [')'])] := by decide +kernel
  cases h with
  | bare hgap hne =>
    left
    have hlast := words_tokenize_word (s := []) hname rfl
    rw [List.append_nil, tokenize_nil] at hlast
    rw [words_tokenize_word hdefined (head?_any_append_of_blank hgap fun hnil => absurd hnil hne),
      words_tokenize_append_of_blank hgap, hlast]
    rfl
  | enclosed hbefore hinner hafter =>
    right
    rw [words_tokenize_word hdefined (head?_any_append_of_blank hbefore fun _ => rfl),
      words_tokenize_append_of_blank hbefore, words_tokenize_punctuator rfl rfl,
      words_tokenize_append_of_blank hinner,
      words_tokenize_word hname (head?_any_append_of_blank hafter fun _ => rfl),
      words_tokenize_append_of_blank hafter, hend]

/-- The question is answered before anything is expanded. -/
theorem DefinedOf.answerDefined_eq {question : List Char} (h : DefinedOf name question)
    (table : MacroTable) : answerDefined table ((tokenize question).filter fun t => !t.isSpace) =
      .ok [definedness table name, blankToken] := by
  rw [filter_tokenize_eq]
  rcases h.words_eq hname with hwords | hwords
  · rw [hwords]
    rfl
  · rw [hwords]
    rfl

theorem DefinedOf.answerDefined_not_eq {gap question : List Char} (hgap : Text.IsBlankText gap)
    (h : DefinedOf name question) (table : MacroTable) :
    answerDefined table ((tokenize ('!' :: (gap ++ question))).filter fun t => !t.isSpace) =
      .ok [⟨.punctuator, ['!'], []⟩, blankToken, definedness table name, blankToken] := by
  have hapart : (gap ++ question).head? ≠ some '=' := by
    rcases gap with _ | ⟨c, gap⟩
    · cases h with
      | bare hgap hne => exact ne_of_beq_false rfl
      | enclosed hbefore hinner hafter => exact ne_of_beq_false rfl
    · intro heq
      have hc := hgap c (List.mem_cons_self ..)
      rw [show c = '=' from Option.some.inj heq] at hc
      exact absurd hc (by decide)
  rw [filter_tokenize_eq, words_tokenize_punctuator rfl (runsOn_exclamation hapart),
    words_tokenize_append_of_blank hgap, List.map_cons, ← filter_tokenize_eq]
  rw [answerDefined_cons_of_not rfl, h.answerDefined_eq hname table]
  rfl

/-- An `#if` that asks is answered before anything is expanded, and no name is left over. -/
theorem Asks.exists_answer {wanted : Bool} {arguments : List Char}
    (h : Asks name wanted .condition arguments) (table : MacroTable) :
    ∃ ts v, answerDefined table ((tokenize arguments).filter fun t => !t.isSpace) = .ok ts ∧
      (∀ t ∈ ts, t.kind ≠ .identifier) ∧ evaluate ts = .ok v ∧
      decide (v ≠ 0) = (table.isDefined name == wanted) := by
  cases h with
  | ifDefined h =>
    refine ⟨_, _, h.answerDefined_eq hname table, by simp [definedness, blankToken],
      evaluate_definedness table name, ?_⟩
    cases table.isDefined name <;> rfl
  | ifNotDefined hgap h =>
    refine ⟨_, _, h.answerDefined_not_eq hname hgap table, by simp [definedness, blankToken],
      evaluate_not_definedness table name, ?_⟩
    cases table.isDefined name <;> rfl

/-- **All ways to ask get the same answer.** -/
theorem Asks.openingHolds_eq {wanted : Bool} {opening : Opening} {arguments : List Char}
    (h : Asks name wanted opening arguments) (table : MacroTable) :
    openingHolds table opening arguments = .ok (table.isDefined name == wanted) := by
  have hmacro (directive : String) : macroName directive name = .ok name := by
    have hfirst : Text.firstWord name = name := by
      obtain ⟨c, rest, hcons, hc⟩ := (hasNoBlankEnds_of_isWord hname).first
      rw [Text.firstWord, hcons, Text.trimStart_cons_of_not hc, ← hcons]
      exact List.takeWhile_eq_self_iff.2 fun d hd => by
        simp [isBlank_of_isWordChar (isWordText_of_isWord hname d hd)]
    rw [macroName, hfirst, if_pos hname]
  cases opening with
  | condition =>
    obtain ⟨ts, v, hanswer, hnames, hvalue, hv⟩ := h.exists_answer hname table
    rw [openingHolds, condition_of_answered hanswer hnames hvalue, hv]
  | defined =>
    cases h
    rw [openingHolds, hmacro]
    cases hdefined : table.isDefined name <;> simp [hdefined, bind, Except.bind, pure, Except.pure]
  | undefined =>
    cases h
    rw [openingHolds, hmacro]
    cases hdefined : table.isDefined name <;> simp [hdefined, bind, Except.bind, pure, Except.pure]

/-! ## How it is written -/

theorem DefinedOf.hasNoBlankEnds {question : List Char} (h : DefinedOf name question) :
    Text.HasNoBlankEnds question := by
  obtain ⟨front, c, hlast, hc⟩ := (hasNoBlankEnds_of_isWord hname).last
  cases h with
  | @bare gap hgap hne =>
    refine ⟨⟨'d', _, rfl, by decide⟩, ⟨"defined".toList ++ (gap ++ front), c, ?_, hc⟩⟩
    simp only [hlast, List.append_assoc]
  | @enclosed before inner after hbefore hinner hafter =>
    refine ⟨⟨'d', _, rfl, by decide⟩,
      ⟨"defined".toList ++ (before ++ '(' :: (inner ++ (name ++ after))), ')', ?_, by decide⟩⟩
    simp only [List.append_assoc, List.cons_append]

theorem Asks.hasNoBlankEnds {wanted : Bool} {opening : Opening} {arguments : List Char}
    (h : Asks name wanted opening arguments) : Text.HasNoBlankEnds arguments := by
  cases h with
  | ifdef => exact hasNoBlankEnds_of_isWord hname
  | ifndef => exact hasNoBlankEnds_of_isWord hname
  | ifDefined h => exact h.hasNoBlankEnds hname
  | @ifNotDefined gap question hgap h =>
    obtain ⟨front, c, hlast, hc⟩ := (h.hasNoBlankEnds hname).last
    refine ⟨⟨'!', _, rfl, by decide⟩, ⟨'!' :: (gap ++ front), c, ?_, hc⟩⟩
    rw [hlast, List.cons_append, List.append_assoc]

/-- A line that asks is read as the directive that it is. -/
theorem AsksLine.exists_classify_eq {wanted : Bool} {line : List Char}
    (h : AsksLine name wanted line) : ∃ opening arguments, Asks name wanted opening arguments ∧
      Line.classify line = .conditional (.opens opening arguments) := by
  obtain @⟨opening, arguments, front, inner, gap, back, hasks, hfront, hinner, hgap, hback,
    hapart⟩ := h
  refine ⟨opening, arguments, hasks, ?_⟩
  have hword : isWord opening.word = true := by cases opening <;> decide
  have hends := hasks.hasNoBlankEnds hname
  have hbehind : (gap ++ (arguments ++ back)).head?.any isWordChar = false := by
    refine head?_any_append_of_blank hgap fun hnil => ?_
    obtain ⟨rest, rfl⟩ : ∃ rest, arguments = '!' :: rest := List.head?_eq_some_iff.1 (hapart hnil)
    rfl
  obtain ⟨htake, hdrop⟩ := split_word (isWordText_of_isWord hword) hbehind
  have hstart : Text.trimStart
      (front ++ '#' :: (inner ++ (opening.word ++ (gap ++ (arguments ++ back))))) =
        '#' :: (inner ++ (opening.word ++ (gap ++ (arguments ++ back)))) := by
    rw [Text.trimStart_append_of_blank hfront, Text.trimStart_cons_of_not (by decide)]
  rw [Line.classify, hstart]
  change Line.ofDirective ((Text.trimStart (inner ++ _)).takeWhile isWordChar)
    (Text.trim ((Text.trimStart (inner ++ _)).dropWhile isWordChar)) _ = _
  rw [Text.trimStart_append_of_blank hinner, (hasNoBlankEnds_of_isWord hword).trimStart_eq, htake,
    hdrop, hends.trim_eq hgap hback]
  cases opening <;> rfl

/-! ## Nothing of it is a comment -/

theorem DefinedOf.notMark {question : List Char} (h : DefinedOf name question) :
    ∀ c ∈ question, c ≠ '/' ∧ isQuote c = false := by
  have hword := notMark_of_isWord hname
  have hdefined := notMark_of_isWord (show isWord "defined".toList = true by decide)
  intro c hc
  cases h with
  | bare hgap hne =>
    rcases List.mem_append.1 hc with hc | hc
    · exact hdefined c hc
    · exact (List.mem_append.1 hc).elim (fun hc => notMark_of_isBlank (hgap c hc)) (hword c)
  | enclosed hbefore hinner hafter =>
    simp only [List.mem_append, List.mem_cons, List.not_mem_nil, or_false] at hc
    rcases hc with hc | hc | hc | hc | hc | hc | hc
    · exact hdefined c hc
    · exact notMark_of_isBlank (hbefore c hc)
    · simp [hc, isQuote]
    · exact notMark_of_isBlank (hinner c hc)
    · exact hword c hc
    · exact notMark_of_isBlank (hafter c hc)
    · simp [hc, isQuote]

theorem Asks.notMark {wanted : Bool} {opening : Opening} {arguments : List Char}
    (h : Asks name wanted opening arguments) :
    ∀ c ∈ arguments, c ≠ '/' ∧ isQuote c = false := by
  have hword := notMark_of_isWord hname
  cases h with
  | ifdef => exact hword
  | ifndef => exact hword
  | ifDefined h => exact h.notMark hname
  | ifNotDefined hgap h =>
    intro c hc
    rcases List.mem_cons.1 hc with rfl | hc
    · decide
    · exact (List.mem_append.1 hc).elim (fun hc => notMark_of_isBlank (hgap c hc))
        (h.notMark hname c)

theorem AsksLine.stripComments_eq {wanted : Bool} {line : List Char}
    (h : AsksLine name wanted line) : stripComments false line = (line, false) := by
  have hmark : ∀ c ∈ line, c ≠ '/' ∧ isQuote c = false := by
    obtain @⟨opening, arguments, front, inner, gap, back, hasks, hfront, hinner, hgap, hback, -⟩ :=
      h
    have hword := notMark_of_isWord (show isWord opening.word = true by cases opening <;> decide)
    intro c hc
    simp only [List.mem_append, List.mem_cons] at hc
    rcases hc with hc | rfl | hc | hc | hc | hc | hc
    · exact notMark_of_isBlank (hfront c hc)
    · decide
    · exact notMark_of_isBlank (hinner c hc)
    · exact hword c hc
    · exact notMark_of_isBlank (hgap c hc)
    · exact hasks.notMark hname c hc
    · exact notMark_of_isBlank (hback c hc)
  exact stripComments_of_scan (by simpa [scan] using scan_code_append hmark [])

/-! ## What comes of it -/

/-- The groups of a file that asks: one more is open, and nothing is at fault. -/
theorem Asks.openWith_eq {wanted : Bool} {opening : Opening} {arguments : List Char}
    (h : Asks name wanted opening arguments) (table : MacroTable) (groups : List Group) :
    Group.openWith table opening arguments groups =
      (Group.opened (Group.keeps groups) (table.isDefined name == wanted) :: groups, none) := by
  rw [Group.openWith, h.openingHolds_eq hname]
  cases Group.keeps groups with
  | false => rfl
  | true => rfl

/-- **All lines that ask whether a name is defined do the same.**  In each place of each file they
open a group that is active if lines are kept around it and the answer is the one that is wanted;
nothing is reported, and nothing else happens.  No name is left over that could be expanded. -/
theorem runLine_of_asksLine {σ : Type} (h : Include.Handler σ) (nested : Option (FileRunner σ))
    (file : String) (st : FileState σ) (wanted : Bool) :
    (∀ line : LogicalLine, AsksLine name wanted (stripComments st.inBlock line.text).1 →
      runLine h nested file st line =
        ⟨Group.opened (Group.keeps st.groups) (st.session.macros.isDefined name == wanted) ::
            st.groups,
          (stripComments st.inBlock line.text).2, st.session⟩) ∧
    (st.inBlock = false → ∀ one other : LogicalLine, AsksLine name wanted one.text →
      AsksLine name wanted other.text →
      runLine h nested file st one = runLine h nested file st other) ∧
    ∀ arguments, Asks name wanted .condition arguments →
      ∃ ts, answerDefined st.session.macros ((tokenize arguments).filter fun t => !t.isSpace) =
          .ok ts ∧
        (∀ t ∈ ts, t.kind ≠ .identifier) ∧ expand st.session.macros ts = .ok ts := by
  have hrun (line : LogicalLine)
      (hline : AsksLine name wanted (stripComments st.inBlock line.text).1) :
      runLine h nested file st line =
        ⟨Group.opened (Group.keeps st.groups) (st.session.macros.isDefined name == wanted) ::
            st.groups,
          (stripComments st.inBlock line.text).2, st.session⟩ := by
    obtain ⟨opening, arguments, hasks, hclass⟩ := hline.exists_classify_eq hname
    rw [runLine_of_conditional h nested file hclass, Group.apply, hasks.openWith_eq hname]
    rfl
  refine ⟨hrun, fun hcode one other hone hother => ?_, fun arguments hasks => ?_⟩
  · have hstrip (line : LogicalLine) (hline : AsksLine name wanted line.text) :
        stripComments st.inBlock line.text = (line.text, false) := by
      rw [hcode, hline.stripComments_eq hname]
    rw [hrun one (by rwa [hstrip one hone]), hrun other (by rwa [hstrip other hother]),
      hstrip one hone, hstrip other hother]
  · obtain ⟨ts, -, hanswer, hnames, -⟩ := hasks.exists_answer hname st.session.macros
    exact ⟨ts, hanswer, hnames, expand_of_no_identifier hnames⟩

end

/-- A file in which `F` is a macro with a parameter, whose body begins another call of it. -/
def callingState : FileState Unit :=
  ⟨[], false, ⟨⟨[(['F'], .function [['x']] "x F(".toList)]⟩, #[], #[], ()⟩⟩

/-- Three ways to ask whether `F` is defined, the last of which hopes that it is not. -/
def askingLines : List Char × List Char × List Char :=
  ("  # ifdef F ".toList, "#if defined( F )".toList, "#if!defined F".toList)

theorem runLine_of_asksLine_calling :
    isWord ['F'] = true ∧
      AsksLine ['F'] true askingLines.1 ∧ AsksLine ['F'] true askingLines.2.1 ∧
      AsksLine ['F'] false askingLines.2.2 ∧
      runLine noFiles none "main" callingState ⟨1, askingLines.1⟩ =
        runLine noFiles none "main" callingState ⟨4, askingLines.2.1⟩ ∧
      runLine noFiles none "main" callingState ⟨4, askingLines.2.1⟩ =
        ⟨[Group.opened true true], false, callingState.session⟩ ∧
      runLine noFiles none "main" callingState ⟨9, askingLines.2.2⟩ =
        ⟨[Group.opened true false], false, callingState.session⟩ := by
  have hword : isWord ['F'] = true := by decide
  have hblank : Text.IsBlankText [' '] := by decide
  have hblanks : Text.IsBlankText [' ', ' '] := by decide
  have hnone : Text.IsBlankText [] := nofun
  have hfirst : AsksLine ['F'] true askingLines.1 :=
    .intro .ifdef hblanks hblank hblank hblank nofun
  have hsecond : AsksLine ['F'] true askingLines.2.1 :=
    .intro (.ifDefined (.enclosed hnone hblank hblank)) hnone hnone hblank hnone nofun
  have hthird : AsksLine ['F'] false askingLines.2.2 :=
    .intro (.ifNotDefined hnone (.bare hblank nofun)) hnone hnone hnone hnone fun _ => rfl
  have hsecondCode : stripComments callingState.inBlock askingLines.2.1 =
      (askingLines.2.1, false) := by decide
  have hthirdCode : stripComments callingState.inBlock askingLines.2.2 =
      (askingLines.2.2, false) := by decide
  obtain ⟨hwanted, hsame, -⟩ := runLine_of_asksLine hword noFiles none "main" callingState true
  obtain ⟨hunwanted, -, -⟩ := runLine_of_asksLine hword noFiles none "main" callingState false
  refine ⟨hword, hfirst, hsecond, hthird, hsame rfl ⟨1, _⟩ ⟨4, _⟩ hfirst hsecond, ?_, ?_⟩
  · rw [hwanted ⟨4, askingLines.2.1⟩ (by rwa [hsecondCode]), hsecondCode]
    rfl
  · rw [hunwanted ⟨9, askingLines.2.2⟩ (by rwa [hthirdCode]), hthirdCode]
    rfl

end Preprocess
end ShaderKit
