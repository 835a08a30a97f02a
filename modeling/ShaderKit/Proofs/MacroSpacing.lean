import ShaderKit.Preprocess.Directive
import ShaderKit.Proofs.ExpansionSeam
import ShaderKit.Proofs.Lexemes

/-!
# Blanks inside macros

A macro may be defined once more with other blanks in its body, and nothing but blanks can come of
that.  Blank tokens matter in an expansion: they stand between a name and its arguments, they are
taken off the ends of an argument, they are what an empty argument may consist of.  But it is only
ever asked whether a token is blank, and never what it is spelled like.

To say so, every blank token is narrowed to a single blank (`Token.narrow`).  Tokens that are alike
up to the text of blanks are those that become equal by that.  Each step of an expansion does the
same to tokens before and after they are narrowed, and so does the whole (`expand_narrow`).  That is
an equation between a table and its narrowed form, and tables that differ by blanks have this form
in common.
-/

set_option autoImplicit false

namespace ShaderKit
namespace Preprocess

/-! ## Tokens that are alike up to blanks -/

namespace Token

/-- The token with a single blank for its text, if it is blank. -/
def narrow (t : Token) : Token := if t.isSpace then { t with text := [' '] } else t

@[simp] theorem narrow_kind (t : Token) : t.narrow.kind = t.kind := by
  rw [narrow]
  split <;> rfl

@[simp] theorem narrow_hidden (t : Token) : t.narrow.hidden = t.hidden := by
  rw [narrow]
  split <;> rfl

@[simp] theorem isSpace_narrow (t : Token) : t.narrow.isSpace = t.isSpace := by
  simp [isSpace]

theorem narrow_of_not_isSpace {t : Token} (h : t.isSpace = false) : t.narrow = t := by
  simp [narrow, h]

theorem narrow_of_isSpace {t : Token} (h : t.isSpace = true) :
    t.narrow = { t with text := [' '] } := by
  simp [narrow, h]

/-- A name is no blank, and keeps its text. -/
theorem narrow_of_identifier {t : Token} (h : t.kind = .identifier) : t.narrow = t :=
  narrow_of_not_isSpace (by simp [isSpace, h])

@[simp] theorem isPunctuator_narrow (t : Token) (p : String) :
    t.narrow.isPunctuator p = t.isPunctuator p := by
  by_cases h : t.isSpace = true
  · have hkind : t.kind = .space := by simpa [isSpace] using h
    simp [isPunctuator, hkind]
  · rw [narrow_of_not_isSpace (by simpa using h)]

@[simp] theorem narrow_hide (names : List (List Char)) (t : Token) :
    (t.hide names).narrow = t.narrow.hide names := by
  by_cases h : t.isSpace = true
  · have h' : (t.hide names).isSpace = true := h
    rw [narrow_of_isSpace h, narrow_of_isSpace h']
    rfl
  · have hword : t.isSpace = false := by simpa using h
    have hword' : (t.hide names).isSpace = false := hword
    rw [narrow_of_not_isSpace hword, narrow_of_not_isSpace hword']

/-- Two tokens are the same, up to the text of blanks. -/
structure Alike (t u : Token) : Prop where
  kind : t.kind = u.kind
  hidden : t.hidden = u.hidden
  text : t.kind ≠ .space → t.text = u.text

theorem alike_iff {t u : Token} : t.Alike u ↔ t.narrow = u.narrow := by
  obtain ⟨kind, text, hidden⟩ := t
  obtain ⟨kind', text', hidden'⟩ := u
  constructor
  · rintro ⟨hkind, hhidden, htext⟩
    simp only at hkind hhidden htext
    subst hkind hhidden
    by_cases h : kind = .space
    · simp [narrow, isSpace, h]
    · simp [narrow, isSpace, h, htext h]
  · intro h
    have hkind : kind = kind' := by simpa using congrArg Token.kind h
    have hhidden : hidden = hidden' := by simpa using congrArg Token.hidden h
    refine ⟨hkind, hhidden, fun hne => ?_⟩
    subst hkind
    simpa [narrow, isSpace, show kind ≠ .space from hne] using congrArg Token.text h

theorem Alike.eq_of_not_isSpace {t u : Token} (h : t.Alike u) (hword : t.isSpace = false) :
    t = u := by
  have hword' : u.isSpace = false := by rwa [isSpace, ← h.kind, ← isSpace]
  rw [← narrow_of_not_isSpace hword, alike_iff.1 h, narrow_of_not_isSpace hword']

end Token

/-- Two lists of tokens are the same, up to the text of blanks. -/
def SameButBlanks (ts us : List Token) : Prop := List.Forall₂ Token.Alike ts us

theorem sameButBlanks_iff {ts us : List Token} :
    SameButBlanks ts us ↔ ts.map Token.narrow = us.map Token.narrow := by
  have halike : Token.Alike = fun t u => t.narrow = u.narrow := by
    funext t u
    exact propext Token.alike_iff
  rw [SameButBlanks, halike, ← List.forall₂_eq_eq_eq, List.forall₂_map_left_iff,
    List.forall₂_map_right_iff]

/-! ## Argument lists -/

namespace ArgumentList

/-- The list with every token changed. -/
def map (f : Token → Token) : ArgumentList → ArgumentList
  | absent => absent
  | unterminated => unterminated
  | complete arguments rest => complete (arguments.map (List.map f)) (rest.map f)

theorem map_push (f : Token → Token) (t : Token) (list : ArgumentList) :
    (list.push t).map f = (list.map f).push (f t) := by
  rcases list with _ | _ | ⟨_ | _, _⟩ <;> rfl

theorem map_begin (f : Token → Token) (list : ArgumentList) :
    list.begin.map f = (list.map f).begin := by
  rcases list with _ | _ | _ <;> rfl

end ArgumentList

theorem collectArguments_narrow (depth : Nat) (ts : List Token) :
    collectArguments depth (ts.map Token.narrow) =
      (collectArguments depth ts).map Token.narrow := by
  induction ts generalizing depth with
  | nil => rfl
  | cons t ts ih =>
    simp only [List.map_cons, collectArguments_cons, Token.isPunctuator_narrow, ih]
    split_ifs
    · rw [ArgumentList.map_push]
    · rcases depth with _ | depth
      · rfl
      · simp only [ArgumentList.map_push]
    · rw [ArgumentList.map_begin]
    · rw [ArgumentList.map_push]

theorem dropWhile_narrow (ts : List Token) :
    (ts.map Token.narrow).dropWhile Token.isSpace =
      (ts.dropWhile Token.isSpace).map Token.narrow := by
  rw [List.dropWhile_map]
  congr 2
  funext t
  simp

theorem takeArguments_narrow (ts : List Token) :
    takeArguments (ts.map Token.narrow) = (takeArguments ts).map Token.narrow := by
  rw [takeArguments, takeArguments, dropWhile_narrow]
  rcases ts.dropWhile Token.isSpace with _ | ⟨t, rest⟩
  · rfl
  · simp only [List.map_cons, Token.isPunctuator_narrow, collectArguments_narrow]
    split <;> rfl

theorem trimTokens_narrow (ts : List Token) :
    trimTokens (ts.map Token.narrow) = (trimTokens ts).map Token.narrow := by
  simp only [trimTokens, dropWhile_narrow, ← List.map_reverse]

theorem matchArguments_narrow (parameters : List (List Char)) (arguments : List (List Token)) :
    matchArguments parameters (arguments.map (List.map Token.narrow)) =
      (matchArguments parameters arguments).map (List.map (List.map Token.narrow)) := by
  have htrim : (arguments.map (List.map Token.narrow)).map trimTokens =
      (arguments.map trimTokens).map (List.map Token.narrow) := by
    simp only [List.map_map, Function.comp_def, trimTokens_narrow]
  have hempty (as : List (List Token)) : as.map (List.map Token.narrow) = [[]] ↔ as = [[]] := by
    rcases as with _ | ⟨a, as⟩ <;> simp
  simp only [matchArguments, htrim, hempty, List.length_map]
  split_ifs <;> rfl

/-! ## Replacements -/

/-- A macro with the blanks in its body narrowed. -/
def Macro.narrow (m : Macro) : Macro := { m with body := m.body.map Token.narrow }

theorem lookup_zip_map {α β : Type} [BEq α] (f : β → β) (names : List α) (values : List β)
    (name : α) :
    (names.zip (values.map f)).lookup name = ((names.zip values).lookup name).map f := by
  induction names generalizing values with
  | nil => rfl
  | cons n names ih =>
    rcases values with _ | ⟨value, values⟩
    · rfl
    · simp only [List.map_cons, List.zip_cons_cons, List.lookup_cons, ih]
      split <;> rfl

theorem substitute_cons (t : Token) (body : List Token) (parameters : List (List Char))
    (arguments : List (List Token)) :
    substitute (t :: body) parameters arguments =
      (if t.kind = .identifier then ((parameters.zip arguments).lookup t.text).getD [t] else [t]) ++
        substitute body parameters arguments := by
  rw [substitute, List.flatMap_cons]
  congr 1
  rcases (parameters.zip arguments).lookup t.text with _ | argument
  · simp
  · simp

theorem substitute_narrow (body : List Token) (parameters : List (List Char))
    (arguments : List (List Token)) :
    substitute (body.map Token.narrow) parameters (arguments.map (List.map Token.narrow)) =
      (substitute body parameters arguments).map Token.narrow := by
  induction body with
  | nil => rfl
  | cons t body ih =>
    rw [List.map_cons, substitute_cons, substitute_cons, List.map_append, ih]
    congr 1
    rw [Token.narrow_kind]
    split
    · rename_i hname
      rw [Token.narrow_of_identifier hname, lookup_zip_map]
      rcases (parameters.zip arguments).lookup t.text with _ | argument
      · simp [Token.narrow_of_identifier hname]
      · rfl
    · rfl

/-- What a name is replaced by, and what is behind it. -/
theorem replacement_narrow (names : List (List Char)) (ts kept : List Token) :
    (ts.map Token.narrow).map (Token.hide names) ++ kept.map Token.narrow =
      (ts.map (Token.hide names) ++ kept).map Token.narrow := by
  simp [Function.comp_def]

/-! ## Expansion -/

/-- The second table has the macros of the first one, the blanks in them narrowed. -/
def MacroTable.NarrowedTo (table narrowed : MacroTable) : Prop :=
  ∀ name, narrowed.get? name = (table.get? name).map Macro.narrow

section

variable {table narrowed : MacroTable} (h : table.NarrowedTo narrowed)

include h

theorem macroAt?_narrow (t : Token) :
    narrowed.macroAt? t.narrow = (table.macroAt? t).map Macro.narrow := by
  by_cases hname : t.kind = .identifier
  · rw [Token.narrow_of_identifier hname, MacroTable.macroAt?, MacroTable.macroAt?, h]
    split <;> rfl
  · simp [MacroTable.macroAt?, hname]

/-- A call, if the lists below it are expanded alike: its arguments are among them, and what it is
replaced by. -/
theorem expand_call_narrow {t : Token} {m : Macro} (hm : table.macroAt? t = some m)
    {parameters : List (List Char)} (hp : m.parameters = some parameters) {rest after : List Token}
    {arguments : List (List Token)} (hc : takeArguments rest = .complete arguments after)
    (ih : ∀ ts, Worklist.Sinks table.level ts (t :: rest) →
      expand narrowed (ts.map Token.narrow) = (expand table ts).map (List.map Token.narrow)) :
    expand narrowed (t :: rest.map Token.narrow) =
      (expand table (t :: rest)).map (List.map Token.narrow) := by
  have hname := (MacroTable.macroAt?_eq_some_iff.1 hm).1
  have hnarrowed := macroAt?_narrow h t
  rw [Token.narrow_of_identifier hname, hm] at hnarrowed
  have hlist := takeArguments_narrow rest
  rw [hc] at hlist
  obtain ⟨hargs, hafter⟩ := sublist_of_takeArguments hc
  have hmatch := matchArguments_narrow parameters arguments
  simp only [expand_cons, hm, hnarrowed, Option.map_some, Macro.narrow, hp, hc, hlist,
    ArgumentList.map, hmatch]
  rcases ha : matchArguments parameters arguments with got | matched
  · rfl
  · have hexpanded : (matched.map (List.map Token.narrow)).mapM (expand narrowed) =
        (matched.mapM (expand table)).map (List.map (List.map Token.narrow)) :=
      mapM_map_of_forall fun argument hargument =>
        ih argument (sinks_tail (sublist_of_matchArguments ha hargs argument hargument))
    simp only [Except.map, hexpanded]
    rcases matched.mapM (expand table) with e | expanded
    · rfl
    · have hbody := ih _ (sinks_replacement hm (substitute m.body parameters expanded) hafter)
      rw [← replacement_narrow, ← substitute_narrow] at hbody
      exact hbody

/-- **Expansion never looks at the text of a blank.** -/
theorem expand_narrow (ts : List Token) :
    expand narrowed (ts.map Token.narrow) = (expand table ts).map (List.map Token.narrow) := by
  induction ts using (Worklist.sinks_wellFounded table.level).induction with
  | _ ts ih =>
  cases ts with
  | nil =>
    rw [List.map_nil, expand_nil, expand_nil]
    rfl
  | cons t rest =>
    have hkeep : (expand narrowed (rest.map Token.narrow)).map (t.narrow :: ·) =
        ((expand table rest).map (t :: ·)).map (List.map Token.narrow) := by
      rw [ih rest (sinks_tail (List.Sublist.refl rest))]
      rcases expand table rest with _ | _ <;> rfl
    have hnarrowed := macroAt?_narrow h t
    rw [List.map_cons]
    rcases hm : table.macroAt? t with _ | m
    · rw [hm] at hnarrowed
      rw [expand_cons_of_plain hm, expand_cons_of_plain hnarrowed, hkeep]
    -- from here on the token is a name, which stays what it is
    have hname : t.narrow = t := Token.narrow_of_identifier (MacroTable.macroAt?_eq_some_iff.1 hm).1
    rw [hname] at hkeep hnarrowed ⊢
    rw [hm] at hnarrowed
    rcases hp : m.parameters with _ | parameters
    · rw [expand_cons_of_object hm hp, expand_cons_of_object (m := m.narrow) hnarrowed hp,
        ← ih _ (sinks_replacement hm m.body (List.Sublist.refl rest)), ← replacement_narrow]
      rfl
    have hlist := takeArguments_narrow rest
    rcases hc : takeArguments rest with _ | _ | ⟨arguments, after⟩
    · rw [hc] at hlist
      rw [expand_cons_of_absent ⟨m, parameters, hm, hp⟩ hc,
        expand_cons_of_absent ⟨m.narrow, parameters, hnarrowed, hp⟩ hlist, hkeep]
    · rw [hc] at hlist
      simp only [expand_cons, hm, hnarrowed, Option.map_some, Macro.narrow, hp, hc, hlist,
        ArgumentList.map]
      rfl
    · exact expand_call_narrow h hm hp hc ih

end

/-! ## Tables with the same definitions -/

theorem Macro.sameDefinition_iff {m₁ m₂ : Macro} :
    m₁.sameDefinition m₂ = true ↔
      m₁.parameters = m₂.parameters ∧ Macro.shape m₁.body = Macro.shape m₂.body := by
  simp [Macro.sameDefinition]

theorem equivalence_sameDefinition :
    Equivalence fun m₁ m₂ : Macro => m₁.sameDefinition m₂ = true where
  refl m := Macro.sameDefinition_iff.2 ⟨rfl, rfl⟩
  symm h := by
    obtain ⟨hparameters, hshape⟩ := Macro.sameDefinition_iff.1 h
    exact Macro.sameDefinition_iff.2 ⟨hparameters.symm, hshape.symm⟩
  trans h h' := by
    obtain ⟨hparameters, hshape⟩ := Macro.sameDefinition_iff.1 h
    obtain ⟨hparameters', hshape'⟩ := Macro.sameDefinition_iff.1 h'
    exact Macro.sameDefinition_iff.2 ⟨hparameters.trans hparameters', hshape.trans hshape'⟩

/-- The tables define the same names, and each of them in the same way but for blanks. -/
def MacroTable.SameDefinitions (t₁ t₂ : MacroTable) : Prop :=
  ∀ name, Option.Rel (fun m₁ m₂ : Macro => m₁.sameDefinition m₂ = true) (t₁.get? name)
    (t₂.get? name)

theorem shape_cons (t : Token) (body : List Token) :
    Macro.shape (t :: body) = t.narrow.text :: Macro.shape body := by
  rw [Macro.shape, List.map_cons, Token.narrow]
  split <;> rfl

theorem Token.IsLexeme.narrow {t : Token} (h : t.IsLexeme) : t.narrow.IsLexeme := by
  by_cases hspace : t.isSpace = true
  · have hkind : t.kind = .space := by simpa [Token.isSpace] using hspace
    rw [Token.narrow_of_isSpace hspace]
    exact ⟨' ', [], rfl, by rw [hkind]; decide⟩
  · rwa [Token.narrow_of_not_isSpace (by simpa using hspace)]

/-- Lexemes of the same text are the same. -/
theorem narrow_eq_of_text_eq {t u : Token} (ht : t.IsLexeme) (hu : u.IsLexeme)
    (hhidden : t.hidden = u.hidden) (htext : t.narrow.text = u.narrow.text) :
    t.narrow = u.narrow := by
  have hkind : t.kind = u.kind := by simpa using ht.narrow.kind_eq hu.narrow htext
  refine Token.alike_iff.1 ⟨hkind, hhidden, fun hword => ?_⟩
  have ht' : t.isSpace = false := by simpa [Token.isSpace] using hword
  have hu' : u.isSpace = false := by simpa [Token.isSpace, ← hkind] using hword
  rwa [Token.narrow_of_not_isSpace ht', Token.narrow_of_not_isSpace hu'] at htext

/-- Comparing bodies by their texts is enough. -/
theorem map_narrow_eq_of_shape_eq {ts us : List Token}
    (hts : ∀ t ∈ ts, t.IsLexeme ∧ t.hidden = []) (hus : ∀ u ∈ us, u.IsLexeme ∧ u.hidden = [])
    (h : Macro.shape ts = Macro.shape us) : ts.map Token.narrow = us.map Token.narrow := by
  induction ts generalizing us with
  | nil =>
    rcases us with _ | ⟨u, us⟩
    · rfl
    · simp [Macro.shape] at h
  | cons t ts ih =>
    rcases us with _ | ⟨u, us⟩
    · simp [Macro.shape] at h
    obtain ⟨⟨ht, hthidden⟩, hts⟩ := List.forall_mem_cons.1 hts
    obtain ⟨⟨hu, huhidden⟩, hus⟩ := List.forall_mem_cons.1 hus
    rw [shape_cons, shape_cons, List.cons.injEq] at h
    obtain ⟨htext, hshape⟩ := h
    rw [List.map_cons, List.map_cons, ih hts hus hshape,
      narrow_eq_of_text_eq ht hu (hthidden.trans huhidden.symm) htext]

theorem narrow_eq_of_sameDefinition {m₁ m₂ : Macro} (h₁ : m₁.IsTokenized) (h₂ : m₂.IsTokenized)
    (h : m₁.sameDefinition m₂ = true) : m₁.narrow = m₂.narrow := by
  obtain ⟨hparameters, hshape⟩ := Macro.sameDefinition_iff.1 h
  rw [Macro.narrow, Macro.narrow, hparameters, map_narrow_eq_of_shape_eq h₁.mem h₂.mem hshape]

namespace MacroTable

/-- The table with the blanks of all macros narrowed. -/
def narrow (table : MacroTable) : MacroTable :=
  ⟨table.entries.map fun e => (e.1, e.2.narrow)⟩

theorem narrowedTo_narrow (table : MacroTable) : table.NarrowedTo table.narrow := by
  obtain ⟨entries⟩ := table
  intro name
  induction entries with
  | nil => rfl
  | cons e entries ih =>
    simp only [get?, narrow, List.map_cons] at ih ⊢
    rw [List.lookup_cons, List.lookup_cons]
    split
    · rfl
    · exact ih

variable {t₁ t₂ : MacroTable}

/-- Tables with the same definitions have their narrowed form in common. -/
theorem SameDefinitions.narrowedTo (h : t₁.SameDefinitions t₂) (h₁ : t₁.IsTokenized)
    (h₂ : t₂.IsTokenized) : t₂.NarrowedTo t₁.narrow := by
  intro name
  rw [t₁.narrowedTo_narrow name]
  have hname := h name
  generalize hget₁ : t₁.get? name = found₁, hget₂ : t₂.get? name = found₂ at hname
  rcases hname with @⟨m₁, m₂, hsame⟩ | _
  · rw [Option.map_some, Option.map_some,
      narrow_eq_of_sameDefinition (h₁ name m₁ hget₁) (h₂ name m₂ hget₂) hsame]
  · rfl

theorem SameDefinitions.isDefined_eq (h : t₁.SameDefinitions t₂) (name : List Char) :
    t₁.isDefined name = t₂.isDefined name := by
  have hname := h name
  rw [isDefined, isDefined]
  generalize t₁.get? name = found₁, t₂.get? name = found₂ at hname
  rcases hname with _ | _ <;> rfl

/-- A name that is defined once more, in a way the table accepts, is defined as it was. -/
theorem sameDefinitions_of_define? {table table' : MacroTable} {name : List Char} {m : Macro}
    (hdefined : table.isDefined name = true) (h : table.define? name m = some table') :
    table.SameDefinitions table' := by
  obtain ⟨old, hold⟩ := Option.isSome_iff_exists.1 hdefined
  rw [define?, hold] at h
  simp only [Option.ite_none_right_eq_some, Option.some.injEq] at h
  obtain ⟨hsame, rfl⟩ := h
  intro other
  rw [get?_insert]
  split
  · rename_i hother
    rw [hother, hold]
    exact .some hsame
  · rcases table.get? other with _ | found
    · exact .none
    · exact .some (equivalence_sameDefinition.refl found)

end MacroTable

/-! ## Conditions -/

theorem answerDefined_congr {t₁ t₂ : MacroTable}
    (h : ∀ name, t₁.isDefined name = t₂.isDefined name) (ts : List Token) :
    answerDefined t₁ ts = answerDefined t₂ ts := by
  have hname (name : List Char) : definedness t₁ name = definedness t₂ name := by
    rw [definedness, definedness, h]
  fun_induction answerDefined t₁ ts <;> rw [answerDefined.eq_def t₂] <;> simp [*]

theorem evaluate_congr {ts us : List Token} (h : SameButBlanks ts us) :
    evaluate ts = evaluate us := by
  have hwords : (ts.filter fun t => !t.isSpace) = us.filter fun t => !t.isSpace := by
    induction h with
    | nil => rfl
    | @cons t u _ _ hhead _ ih =>
      have hspace : u.isSpace = t.isSpace := by rw [Token.isSpace, Token.isSpace, hhead.kind]
      rw [List.filter_cons, List.filter_cons, hspace, ih]
      split
      · rename_i hword
        rw [hhead.eq_of_not_isSpace (by simpa using hword)]
      · rfl
  rw [evaluate, evaluate, hwords]

/-- The value of the condition of an `#if` or `#elif`. -/
def conditionValue (table : MacroTable) (arguments : List Char) : Except Fault Int64 := do
  let ts ← answerDefined table ((tokenize arguments).filter fun t => !t.isSpace)
  let ts ← (expand table ts).mapError .expansion
  (evaluate ts).mapError .condition

/-- A condition holds if its value is not zero. -/
theorem condition_eq (table : MacroTable) (arguments : List Char) :
    condition table arguments =
      (fun value : Int64 => decide (value ≠ 0)) <$> conditionValue table arguments := by
  simp only [condition, conditionValue, map_eq_pure_bind, bind_assoc]

/-! ## Redefinitions that make no difference -/

/-- What two expansions come to that are the same but for blanks: both fail, in the same way, or
both succeed. -/
inductive SameExpansion :
    Except ExpansionError (List Token) → Except ExpansionError (List Token) → Prop
  | failed (e : ExpansionError) : SameExpansion (.error e) (.error e)
  | expanded {ra rb : List Token} (h : SameButBlanks ra rb) : SameExpansion (.ok ra) (.ok rb)

theorem sameExpansion_of_map_eq {x y : Except ExpansionError (List Token)}
    (h : x.map (List.map Token.narrow) = y.map (List.map Token.narrow)) : SameExpansion x y := by
  rcases x with e | ra
  · rcases y with e' | rb
    · cases h
      exact .failed e
    · cases h
  · rcases y with e' | rb
    · cases h
    · exact .expanded (sameButBlanks_iff.2 (Except.ok.inj h))

/-- No expansion, and no condition, can tell one table from the other, blanks aside. -/
structure MacroTable.ActsAlike (t₁ t₂ : MacroTable) : Prop where
  expand : ∀ a b, SameButBlanks a b → SameExpansion (expand t₁ a) (expand t₂ b)
  value : ∀ text, conditionValue t₁ text = conditionValue t₂ text
  condition : ∀ text, condition t₁ text = condition t₂ text

theorem actsAlike_of_sameDefinitions {t₁ t₂ : MacroTable} (h₁ : t₁.IsTokenized)
    (h₂ : t₂.IsTokenized) (h : t₁.SameDefinitions t₂) : t₁.ActsAlike t₂ := by
  have hexpand (a b : List Token) (hab : SameButBlanks a b) :
      SameExpansion (expand t₁ a) (expand t₂ b) := by
    refine sameExpansion_of_map_eq ?_
    calc (expand t₁ a).map (List.map Token.narrow)
        = expand t₁.narrow (a.map Token.narrow) := (expand_narrow t₁.narrowedTo_narrow a).symm
      _ = expand t₁.narrow (b.map Token.narrow) := by rw [sameButBlanks_iff.1 hab]
      _ = (expand t₂ b).map (List.map Token.narrow) := expand_narrow (h.narrowedTo h₁ h₂) b
  have hvalue (text : List Char) : conditionValue t₁ text = conditionValue t₂ text := by
    rw [conditionValue, conditionValue, answerDefined_congr h.isDefined_eq]
    rcases answerDefined t₂ ((tokenize text).filter fun t => !t.isSpace) with _ | ts
    · rfl
    · have hts := hexpand ts ts (sameButBlanks_iff.2 rfl)
      show ((expand t₁ ts).mapError Fault.expansion >>= _) =
        ((expand t₂ ts).mapError Fault.expansion >>= _)
      generalize expand t₁ ts = x, expand t₂ ts = y at hts
      rcases hts with _ | h
      · rfl
      · show (evaluate _).mapError Fault.condition = (evaluate _).mapError Fault.condition
        rw [evaluate_congr h]
  refine ⟨hexpand, hvalue, fun text => ?_⟩
  rw [condition_eq, condition_eq, hvalue]

/-- **A benign redefinition is invisible.**  To be the same definition is an equivalence relation.
If two tables have the same names, and every name has the same definition in both, then lists that
are the same but for the text of blanks are expanded to lists that are again the same but for the
text of blanks, hidden names included, or with the same error; and every condition has the same
value, or the same error.  That is so before and after a definition by which the source text defines
a name once more. -/
theorem sameDefinition_invisible :
    (Equivalence fun m₁ m₂ : Macro => m₁.sameDefinition m₂ = true) ∧
    (∀ t₁ t₂ : MacroTable, t₁.IsTokenized → t₂.IsTokenized → t₁.SameDefinitions t₂ →
      t₁.ActsAlike t₂) ∧
    ∀ (table table' : MacroTable) (name : List Char) (m : Macro), table.IsTokenized →
      m.IsTokenized → table.isDefined name = true → table.define? name m = some table' →
      table.ActsAlike table' := by
  refine ⟨equivalence_sameDefinition, fun _ _ => actsAlike_of_sameDefinitions, ?_⟩
  intro table table' name m htable hm hdefined hdefine
  exact actsAlike_of_sameDefinitions htable (htable.define? hm hdefine)
    (MacroTable.sameDefinitions_of_define? hdefined hdefine)

/-- A macro that adds its argument to itself. -/
def doubling : Macro := .function [['x']] "x + x".toList

/-- The same one, written with other blanks. -/
def doublingWide : Macro := .function [['x']] " x  +\t x".toList

/-- A table with nothing but that macro in it, as it was written first. -/
def doublingTable : MacroTable := ⟨[(['D'], doubling)]⟩

/-- The table after the second definition. -/
def doublingTableWide : MacroTable := ⟨[(['D'], doublingWide)]⟩

theorem isTokenized_doublingTable : doublingTable.IsTokenized := by
  intro name m hm
  have hmem := MacroTable.mem_names_of_get? hm
  simp only [MacroTable.names, doublingTable, List.map_cons, List.map_nil, List.mem_cons,
    List.not_mem_nil, or_false] at hmem
  subst hmem
  cases hm
  exact ⟨_, rfl⟩

/-- A macro is defined once more with wider blanks, and a call of it with other blanks as well comes
to `1 + 1` in both cases, once with narrow blanks and once with wide ones. -/
theorem sameDefinition_invisible_doubling :
    let one : Token := ⟨.number, ['1'], [['D']]⟩
    let plus : Token := ⟨.punctuator, ['+'], [['D']]⟩
    let blank (text : String) : Token := ⟨.space, text.toList, [['D']]⟩
    let ra := [one, blank " ", plus, blank " ", one]
    let rb := [one, blank "  ", plus, blank "\t ", one]
    doublingTable.define? ['D'] doublingWide = some doublingTableWide ∧
      doublingTable.ActsAlike doublingTableWide ∧
      expand doublingTable (tokenize "D( 1 )".toList) = .ok ra ∧
      expand doublingTableWide (tokenize "D(\t1  )".toList) = .ok rb ∧ SameButBlanks ra rb := by
  intro one plus blank ra rb
  have hdefine : doublingTable.define? ['D'] doublingWide = some doublingTableWide := by
    decide +kernel
  have hsame : doublingTable.ActsAlike doublingTableWide :=
    sameDefinition_invisible.2.2 _ _ _ _ isTokenized_doublingTable ⟨_, rfl⟩ (by decide +kernel)
      hdefine
  have hra : expand doublingTable (tokenize "D( 1 )".toList) = .ok ra :=
    Machine.expand_eq_of_halted (n := 10) (by decide +kernel)
  have hrb : expand doublingTableWide (tokenize "D(\t1  )".toList) = .ok rb :=
    Machine.expand_eq_of_halted (n := 10) (by decide +kernel)
  have hcall : SameButBlanks (tokenize "D( 1 )".toList) (tokenize "D(\t1  )".toList) := by
    rw [sameButBlanks_iff]
    decide +kernel
  have hout := hsame.expand _ _ hcall
  rw [hra, hrb] at hout
  cases hout with
  | expanded h => exact ⟨hdefine, hsame, hra, hrb, h⟩

end Preprocess
end ShaderKit
