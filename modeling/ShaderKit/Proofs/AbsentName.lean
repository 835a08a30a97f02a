import Mathlib.Data.List.Infix
import ShaderKit.Proofs.CommentScan
import ShaderKit.Proofs.TokenGluing
import ShaderKit.Proofs.Trimming

/-!
# A name that is not mentioned

A table of macros is asked for words only, and every word that it is asked for has been read
somewhere: in a line, or in the body of a macro.  So an entry for a name that is mentioned in
neither is never found, whatever it says.

`Silent` is what it means for a text not to mention a name, and it is inherited by every part of a
line that is ever looked at: comments taken out, arguments of directives, tokens
(`Silent.stripComments`, `Silent.operand`, `Silent.tokenize`).  `MacroTable.AlikeBut` relates tables
that differ in a name which no body in them mentions, and the theorems about it say that each reader
of a table — expansion, conditions, include names — finds the same in both.
-/

set_option autoImplicit false

namespace ShaderKit
namespace Preprocess

/-! ## Comments -/

/-- A text of word characters. -/
def IsWordText (word : List Char) : Prop := ∀ c ∈ word, isWordChar c = true

theorem IsWordText.eq_nil_of_prefix_blank {word s : List Char} (hword : IsWordText word)
    (h : word <+: ' ' :: s) : word = [] := by
  rcases List.prefix_cons_iff.1 h with rfl | ⟨tail, rfl, -⟩
  · rfl
  · cases hword ' ' List.mem_cons_self

/-- What follows a comment is kept apart from what precedes it. -/
theorem IsWordText.eq_nil_of_prefix_scan_block {word line : List Char} (hword : IsWordText word)
    (h : word <+: (scan .block line).1) : word = [] := by
  generalize hregion : Region.block = region at h
  fun_induction scan region line with
  | case1 | case2 | case3 => exact List.prefix_nil.1 h
  | case6 => exact hword.eq_nil_of_prefix_blank h
  | case7 c s _ ih => exact ih rfl h
  | case4 | case5 | case8 | case9 => cases hregion

/-- The words of a text are words of the other one, those at its front at the front. -/
structure KeepsWords (out line : List Char) : Prop where
  front : ∀ word, IsWordText word → word <+: out → word <+: line
  inside : ∀ word, IsWordText word → word <:+: out → word <:+: line

namespace KeepsWords

variable {out line : List Char}

theorem nil : KeepsWords [] line where
  front word _ h := by
    obtain rfl := List.prefix_nil.1 h
    exact List.nil_prefix
  inside word _ h := by
    obtain rfl := List.infix_nil.1 h
    exact List.nil_infix

theorem cons (h : KeepsWords out line) (c : Char) : KeepsWords (c :: out) (c :: line) := by
  have hfront (word : List Char) (hword : IsWordText word) (hin : word <+: c :: out) :
      word <+: c :: line := by
    rcases List.prefix_cons_iff.1 hin with rfl | ⟨tail, rfl, htail⟩
    · exact List.nil_prefix
    · exact List.cons_prefix_cons.2 ⟨rfl, h.front tail (fun d hd => hword d (by simp [hd])) htail⟩
  refine ⟨hfront, fun word hword hin => ?_⟩
  rcases List.infix_cons_iff.1 hin with hin | hin
  · exact (hfront word hword hin).isInfix
  · exact List.infix_cons (h.inside word hword hin)

/-- Characters can be left out where no word begins. -/
theorem skip (h : KeepsWords out line) (hout : ∀ word, IsWordText word → word <+: out → word = [])
    (c : Char) : KeepsWords out (c :: line) where
  front word hword hin := by
    obtain rfl := hout word hword hin
    exact List.nil_prefix
  inside word hword hin := List.infix_cons (h.inside word hword hin)

/-- A blank can stand for any character. -/
theorem blank (h : KeepsWords out line) (c : Char) : KeepsWords (' ' :: out) (c :: line) where
  front word hword hin := by
    obtain rfl := hword.eq_nil_of_prefix_blank hin
    exact List.nil_prefix
  inside word hword hin := by
    rcases List.infix_cons_iff.1 hin with hin | hin
    · obtain rfl := hword.eq_nil_of_prefix_blank hin
      exact List.nil_infix
    · exact List.infix_cons (h.inside word hword hin)

end KeepsWords

/-- **Taking comments out makes no words.** -/
theorem keepsWords_scan (region : Region) (line : List Char) :
    KeepsWords (scan region line).1 line := by
  have hblock (s : List Char) (word : List Char) (hword : IsWordText word) :
      word <+: (scan .block s).1 → word = [] := hword.eq_nil_of_prefix_scan_block
  fun_induction scan region line with
  | case1 | case2 | case3 => exact .nil
  | case4 s ih => exact (ih.skip (hblock s) '*').skip (hblock s) '/'
  | case7 c s _ ih => exact ih.skip (hblock s) c
  | case6 s out inBlock hscan ih =>
    rw [hscan] at ih
    exact (ih.blank '/').skip (fun word hword => hword.eq_nil_of_prefix_blank) '*'
  | case5 c s _ _ out inBlock hscan ih | case9 quote c s _ out inBlock hscan ih =>
    rw [hscan] at ih
    exact ih.cons c
  | case8 quote c s out inBlock hscan ih =>
    rw [hscan] at ih
    exact (ih.cons c).cons '\\'

/-! ## Texts that do not mention a name -/

/-- A text in which a name does not occur.  A name that is no word cannot be mentioned. -/
def Silent (name s : List Char) : Prop := isWord name = true → ¬ name <:+: s

theorem isWordText_of_isWord {word : List Char} (h : isWord word = true) : IsWordText word :=
  isWordChar_of_mem_word h

namespace Silent

variable {name s part : List Char}

theorem mono (h : Silent name s) (hpart : part <:+: s) : Silent name part :=
  fun hword hin => h hword (hin.trans hpart)

theorem ne (h : Silent name s) (hword : isWord part = true) (hpart : part <:+: s) :
    part ≠ name := by
  rintro rfl
  exact h hword hpart

theorem stripComments (h : Silent name s) (inBlock : Bool) :
    Silent name (stripComments inBlock s).1 := by
  intro hword hin
  refine h hword ((keepsWords_scan (if inBlock then .block else .code) s).inside name
    (isWordText_of_isWord hword) ?_)
  rw [Preprocess.stripComments] at hin
  generalize scan (if inBlock then .block else .code) s = scanned at hin ⊢
  dsimp only at hin
  split at hin
  · rcases List.infix_concat_iff.1 hin with hend | hin
    · rcases List.suffix_concat_iff.1 hend with rfl | ⟨front, rfl, -⟩
      · cases hword
      · cases isWordText_of_isWord hword ' ' (by simp)
    · exact hin
  · exact hin

end Silent

/-! ## Lines and tokens -/

/-- The part of a line in which names are looked up. -/
def Line.operand : Line → List Char
  | .text line => line
  | .conditional (.opens _ arguments) => arguments
  | .conditional (.elif arguments) => arguments
  | .action (.define arguments) => arguments
  | .action (.undefine arguments) => arguments
  | .action (.include arguments) => arguments
  | _ => []

theorem isInfix_operand_ofDirective (name arguments line : List Char) :
    (Line.ofDirective name arguments line).operand <:+: arguments := by
  rw [Line.ofDirective]
  split <;> first | exact List.infix_refl arguments | exact List.nil_infix

theorem isInfix_operand_classify (line : List Char) : (Line.classify line).operand <:+: line := by
  rw [Line.classify]
  split
  · next rest hline =>
    refine (isInfix_operand_ofDirective _ _ _).trans ((Text.isInfix_trim _).trans ?_)
    refine (List.dropWhile_suffix _).isInfix.trans ((Text.isInfix_trimStart rest).trans ?_)
    exact (List.suffix_cons '#' rest).isInfix.trans (hline ▸ Text.isInfix_trimStart line)
  · exact List.infix_refl line

theorem Silent.operand {name line : List Char} (h : Silent name line) :
    Silent name (Line.classify line).operand := h.mono (isInfix_operand_classify line)

/-- The token is not that name. -/
def Token.Avoids (name : List Char) (t : Token) : Prop := t.kind = .identifier → t.text ≠ name

theorem Token.Avoids.hide {name : List Char} {t : Token} (h : t.Avoids name)
    (names : List (List Char)) : (t.hide names).Avoids name := h

theorem isInfix_spelling_of_mem {t : Token} {ts : List Token} (h : t ∈ ts) :
    t.text <:+: spelling ts := by
  obtain ⟨before, behind, rfl⟩ := List.append_of_mem h
  exact ⟨spelling before, spelling behind, by simp⟩

theorem Token.IsLexeme.isWord {t : Token} (ht : t.IsLexeme) (hkind : t.kind = .identifier) :
    isWord t.text = true := by
  obtain ⟨c, s, htext, hextent⟩ := ht.exists_extent
  rw [htext, Preprocess.isWord]
  rw [hkind, extent] at hextent
  split_ifs at hextent with hblank hstart
  · cases hextent
  · rw [hstart, Bool.true_and, List.all_eq_true]
    refine List.takeWhile_eq_self_iff.1 ?_
    exact (List.takeWhile_prefix _).eq_of_length (Prod.mk.inj hextent).2
  all_goals cases hextent

theorem Silent.tokenize {name line : List Char} (h : Silent name line) :
    ∀ t ∈ tokenize line, t.Avoids name := by
  intro t ht hkind
  refine h.ne ((isLexeme_of_mem_tokenize t ht).isWord hkind) ?_
  have hpart := isInfix_spelling_of_mem ht
  rwa [spelling_tokenize] at hpart

/-! ## Tables that differ in a name -/

/-- No token in the body of the macro is that name. -/
def Macro.Avoids (name : List Char) (m : Macro) : Prop := ∀ t ∈ m.body, t.Avoids name

/-- A macro that stands for a silent text. -/
theorem Silent.avoids {name text : List Char} (h : Silent name text) {m : Macro}
    (hm : m.body = tokenizeTrimmed text) : m.Avoids name := by
  intro t ht
  rw [hm] at ht
  exact h.tokenize t ((trimTokens_sublist _).subset ht)

/-- The second table says the same of every name but one, and no body of the first mentions that
one.  What the tables say of the name itself, and what that mentions, is left open. -/
structure MacroTable.AlikeBut (name : List Char) (table table' : MacroTable) : Prop where
  get?_eq : ∀ other, other ≠ name → table'.get? other = table.get? other
  avoids : ∀ other m, table.get? other = some m → m.Avoids name

namespace MacroTable.AlikeBut

variable {name : List Char} {table table' : MacroTable} (h : table.AlikeBut name table')

include h

theorem isDefined_eq {other : List Char} (hother : other ≠ name) :
    table'.isDefined other = table.isDefined other := by
  rw [isDefined, isDefined, h.get?_eq other hother]

theorem macroAt?_eq {t : Token} (ht : t.Avoids name) : table'.macroAt? t = table.macroAt? t := by
  rw [macroAt?, macroAt?]
  by_cases hkind : t.kind = .identifier
  · rw [h.get?_eq t.text (ht hkind)]
  · simp [hkind]

theorem insert {m : Macro} (hm : m.Avoids name) (key : List Char) :
    (table.insert key m).AlikeBut name (table'.insert key m) where
  get?_eq other hother := by rw [get?_insert, get?_insert, h.get?_eq other hother]
  avoids other found hfound := by
    rw [get?_insert] at hfound
    split at hfound
    · cases hfound
      exact hm
    · exact h.avoids other found hfound

theorem erase (key : List Char) : (table.erase key).AlikeBut name (table'.erase key) where
  get?_eq other hother := by rw [get?_erase, get?_erase, h.get?_eq other hother]
  avoids other found hfound := by
    rw [get?_erase] at hfound
    split at hfound
    · cases hfound
    · exact h.avoids other found hfound

theorem define? {m : Macro} (hm : m.Avoids name) {key : List Char}
    (hkey : key ≠ name) :
    Option.Rel (AlikeBut name) (table.define? key m) (table'.define? key m) := by
  rw [MacroTable.define?, MacroTable.define?, h.get?_eq key hkey]
  split
  · split
    · exact .some (h.insert hm key)
    · exact .none
  · exact .some (h.insert hm key)

/-- **A name that is not mentioned is not expanded**, so it does not matter what it stands for. -/
theorem expand_eq {ts : List Token} (hts : ∀ t ∈ ts, t.Avoids name) :
    expand table' ts = expand table ts := by
  induction ts using (Worklist.sinks_wellFounded table.level).induction with
  | _ ts ih =>
  cases ts with
  | nil => rw [expand_nil, expand_nil]
  | cons t rest =>
    obtain ⟨ht, hrest⟩ := List.forall_mem_cons.1 hts
    have htail := ih rest (sinks_tail (List.Sublist.refl rest)) hrest
    have hhide (names : List (List Char)) (x : Token) (hx : x.Avoids name) :
        (x.hide names).Avoids name := hx.hide names
    rw [expand_cons, expand_cons, h.macroAt?_eq ht, htail]
    rcases hm : table.macroAt? t with _ | m
    · rfl
    have hbody := h.avoids _ m (MacroTable.macroAt?_eq_some_iff.1 hm).2.2
    rcases hp : m.parameters with _ | parameters <;> simp only [hp]
    · exact ih _ (sinks_replacement hm m.body (List.Sublist.refl rest))
        (forall_mem_replacement hhide hbody hrest t.trail)
    rcases hc : takeArguments rest with _ | _ | ⟨arguments, after⟩
    · rfl
    · rfl
    obtain ⟨harguments, hafter⟩ := sublist_of_takeArguments hc
    rcases hmatch : matchArguments parameters arguments with got | matched <;> simp only [hmatch]
    have hmatched : ∀ argument ∈ matched, argument.Sublist rest :=
      sublist_of_matchArguments hmatch harguments
    have harguments' : ∀ argument ∈ matched, ∀ x ∈ argument, x.Avoids name :=
      fun argument hmem x hx => hrest x ((hmatched argument hmem).subset hx)
    rw [mapM_congr_of_forall fun argument hmem =>
      ih argument (sinks_tail (hmatched argument hmem)) (harguments' argument hmem)]
    rcases hargs : matched.mapM (expand table) with e | expanded
    · rfl
    refine ih _ (sinks_replacement hm _ hafter)
      (forall_mem_replacement hhide (fun x hx => ?_) (fun x hx => hrest x (hafter.subset hx))
        t.trail)
    -- an argument is expanded before it is put in, and that puts no other names into it
    rcases mem_substitute hx with hx | ⟨argument, hargument, hx⟩
    · exact hbody x hx
    · obtain ⟨raw, hraw, hresult⟩ := exists_of_mem_of_mapM_eq_ok hargs argument hargument
      exact forall_mem_expand hhide h.avoids (harguments' raw hraw) hresult x hx

theorem answerDefined_eq {ts : List Token} (hts : ∀ t ∈ ts, t.Avoids name) :
    answerDefined table' ts = answerDefined table ts := by
  have hname {t : Token} (ht : t.Avoids name) (hkind : t.kind = .identifier) :
      definedness table' t.text = definedness table t.text := by
    rw [definedness, definedness, h.isDefined_eq (ht hkind)]
  fun_induction answerDefined table ts with
  | case1 => rfl
  | case2 t hdefined => simp only [answerDefined, hdefined, if_true]
  | case3 t hdefined u hopen => simp only [answerDefined, hdefined, hopen, if_true]
  | case4 t hdefined u hopen found => simp only [answerDefined, hdefined, hopen, if_true]
  | case5 t hdefined u hopen found close rest hfound hclose ih =>
    have hrest := ih fun x hx => hts x (by simp [hx])
    have hanswer := hname (hts found (by simp)) hfound
    simp only [answerDefined, hdefined, hopen, hfound, hclose, if_true, hrest, hanswer]
  | case6 t hdefined u hopen found close rest hfound hclose =>
    simp only [answerDefined, hdefined, hopen, hfound, hclose, if_true, if_false,
      Bool.false_eq_true]
  | case7 t hdefined u hopen found close rest hfound =>
    simp only [answerDefined, hdefined, hopen, hfound, if_true, if_false]
  | case8 t hdefined u us hopen hu ih =>
    have hrest := ih fun x hx => hts x (by simp [hx])
    have hanswer := hname (hts u (by simp)) hu
    rw [answerDefined.eq_def]
    simp only [hdefined, hopen, hu, if_true, if_false, Bool.false_eq_true, hrest, hanswer]
  | case9 t hdefined u us hopen hu =>
    rw [answerDefined.eq_def]
    simp only [hdefined, hopen, hu, if_true, if_false, Bool.false_eq_true]
  | case10 t ts hdefined ih =>
    have hrest := ih fun x hx => hts x (by simp [hx])
    rw [answerDefined.eq_def]
    simp only [hdefined, if_false, Bool.false_eq_true, hrest]

end MacroTable.AlikeBut

/-- What becomes of a `defined` is no name. -/
theorem avoids_of_mem_answerDefined {name : List Char} {table : MacroTable} {ts us : List Token}
    (hts : ∀ t ∈ ts, t.Avoids name) (h : answerDefined table ts = .ok us) :
    ∀ u ∈ us, u.Avoids name := by
  have avoids_blankToken : blankToken.Avoids name := fun hkind => by cases hkind
  have avoids_definedness (found : List Char) : (definedness table found).Avoids name :=
    fun hkind => by cases hkind
  have hcons {t : Token} {rest : Except Fault (List Token)} {us : List Token} (ht : t.Avoids name)
      (hrest : ∀ {tail}, rest = .ok tail → ∀ u ∈ tail, u.Avoids name)
      (h : (do return t :: blankToken :: (← rest)) = .ok us) : ∀ u ∈ us, u.Avoids name := by
    obtain ⟨tail, htail, hus⟩ := bind_eq_ok_iff.1 h
    cases hus
    exact List.forall_mem_cons.2 ⟨ht, List.forall_mem_cons.2 ⟨avoids_blankToken, hrest htail⟩⟩
  fun_induction answerDefined table ts generalizing us with
  | case1 =>
    cases h
    simp
  | case2 | case3 | case4 | case6 | case7 | case9 => cases h
  | case5 t _ u _ found close rest _ _ ih =>
    exact hcons (avoids_definedness _) (ih fun x hx => hts x (by simp [hx])) h
  | case8 t _ u us' _ _ ih =>
    exact hcons (avoids_definedness _) (ih fun x hx => hts x (by simp [hx])) h
  | case10 t rest _ ih =>
    exact hcons (hts t List.mem_cons_self) (ih fun x hx => hts x (by simp [hx])) h

/-! ## Directives -/

theorem macroName_eq_ok {directive : String} {arguments found : List Char}
    (h : macroName directive arguments = .ok found) :
    isWord found = true ∧ found <:+: arguments := by
  rw [macroName] at h
  split at h
  · next hword =>
    cases h
    exact ⟨hword, Text.isInfix_firstWord arguments⟩
  · cases h

/-- The name that a `#define` defines, and the text of the body, are parts of it. -/
theorem definition_eq_ok {arguments found : List Char} {m : Macro}
    (h : definition arguments = .ok (found, m)) :
    isWord found = true ∧ found <:+: arguments ∧
      ∃ body, body <:+: arguments ∧ m.body = tokenizeTrimmed body := by
  have hfound : arguments.takeWhile isWordChar <:+: arguments :=
    (List.takeWhile_prefix isWordChar).isInfix
  have hbehind : arguments.dropWhile isWordChar <:+: arguments :=
    (List.dropWhile_suffix isWordChar).isInfix
  rw [definition] at h
  dsimp only at h
  split at h
  · cases h
  next hword =>
  have hword' : isWord (arguments.takeWhile isWordChar) = true := by simpa using hword
  split at h
  · cases h
  split at h
  · next rest hrest =>
    split at h
    · cases h
    · next parameters body hcut =>
      obtain ⟨names, -, hm⟩ := bind_eq_ok_iff.1 h
      cases hm
      refine ⟨hword', hfound, body, ?_, rfl⟩
      rw [hrest] at hbehind
      have hbody : '(' :: rest = ('(' :: parameters ++ [')']) ++ body := by
        simp [(Text.eq_append_of_cutAt? hcut).1]
      exact (hbody ▸ (List.suffix_append _ _).isInfix).trans hbehind
  · cases h
    exact ⟨hword', hfound, _, hbehind, rfl⟩

namespace MacroTable.AlikeBut

variable {name arguments : List Char} {table table' : MacroTable}
  (h : table.AlikeBut name table') (hsilent : Silent name arguments)

include h hsilent

theorem condition_eq : condition table' arguments = condition table arguments := by
  have hts : ∀ t ∈ (tokenize arguments).filter (fun t => !t.isSpace), t.Avoids name :=
    fun t ht => hsilent.tokenize t (List.mem_of_mem_filter ht)
  rw [condition, condition, h.answerDefined_eq hts]
  cases hanswered : answerDefined table ((tokenize arguments).filter fun t => !t.isSpace) with
  | error fault => rfl
  | ok us =>
    change ((expand table' us).mapError Fault.expansion >>= _) =
      ((expand table us).mapError Fault.expansion >>= _)
    rw [h.expand_eq (avoids_of_mem_answerDefined hts hanswered)]

theorem openingHolds_eq (opening : Opening) :
    openingHolds table' opening arguments = openingHolds table opening arguments := by
  have hlookup {directive : String} {found : List Char}
      (hfound : macroName directive arguments = .ok found) :
      table'.isDefined found = table.isDefined found := by
    obtain ⟨hword, hpart⟩ := macroName_eq_ok hfound
    exact h.isDefined_eq (hsilent.ne hword hpart)
  cases opening with
  | condition => exact h.condition_eq hsilent
  | defined =>
    rw [openingHolds, openingHolds]
    cases hfound : macroName "ifdef" arguments with
    | error fault => rfl
    | ok found => exact congrArg Except.ok (hlookup hfound)
  | undefined =>
    rw [openingHolds, openingHolds]
    cases hfound : macroName "ifndef" arguments with
    | error fault => rfl
    | ok found => exact congrArg (fun defined => Except.ok (!defined)) (hlookup hfound)

theorem includeTarget_eq : includeTarget table' arguments = includeTarget table arguments := by
  rw [includeTarget, includeTarget, h.expand_eq hsilent.tokenize]

end MacroTable.AlikeBut

end Preprocess
end ShaderKit
