import ShaderKit.Proofs.FileRun

/-!
# Diagnostics of failed includes

A diagnostic tells what went wrong in its message only.  Those of include files that could not be
opened all begin alike, and no other does (`aboutFailedInclude_message`), so they can be picked out
of what a run reports: `Session.failures`.

The beginning is not read back from a message that was put together from parts: it is enough that
the first part of every other message is neither an extension of the mark nor a beginning of it
(`Unmarked`).  Such a part can be checked by evaluation, and nothing that is put behind it makes a
difference (`Unmarked.append`), names and texts of the source among them.  So a program cannot
write a directive whose diagnostic is taken for one about a file.

A line that may not include anything never adds to them (`failures_runLine`): the readers of
directives, `condition` and `definition` and the others, have faults of their own, but not this
one.  `OpensNothing` says so of a reader.  It goes through binds and maps as the readers are put
together, with one lemma for each of them, and then through the stack of groups and the actions
(`AddsNoFailure`) up to the line.
-/

set_option autoImplicit false

namespace ShaderKit
namespace Preprocess

variable {σ : Type}

/-! ## How they are told -/

/-- Whether a fault is an include file that could not be opened. -/
def Fault.isFailedInclude : Fault → Bool
  | .includeFailed _ _ => true
  | _ => false

/-- What the message of such a fault begins with. -/
def failureMark : List Char := "Include file '".toList

/-- Whether a diagnostic is about an include file that could not be opened. -/
def aboutFailedInclude (d : Diagnostic) : Bool := failureMark.isPrefixOf d.message.toList

/-- The message begins otherwise, and goes on otherwise whatever is added to it. -/
def Unmarked (message : String) : Prop :=
  ¬failureMark <+: message.toList ∧ ¬message.toList <+: failureMark

instance (message : String) : Decidable (Unmarked message) :=
  inferInstanceAs (Decidable (_ ∧ _))

/-- What is put behind an unmarked text leaves it unmarked. -/
theorem Unmarked.append {message : String} (h : Unmarked message) (more : String) :
    Unmarked (message ++ more) := by
  rw [Unmarked, String.toList_append]
  have hpre := List.prefix_append message.toList more.toList
  constructor
  · intro hmark
    rcases List.prefix_or_prefix_of_prefix hmark hpre with hmark | hmark
    · exact h.1 hmark
    · exact h.2 hmark
  · intro hmark
    exact h.2 (hpre.trans hmark)

/-- Faults of expansion name the macro, behind words of their own. -/
theorem unmarked_expansion (e : ExpansionError) : Unmarked e.message := by
  cases e with
  | unterminatedArguments name =>
    have hlead : Unmarked "Unterminated argument list invoking macro '" := by decide
    exact (hlead.append _).append _
  | argumentCount name expected got =>
    have hlead : Unmarked "Macro '" := by decide
    exact ((((hlead.append _).append _).append _).append _).append _

/-- Faults of conditions quote a token at most, behind words of their own. -/
theorem unmarked_condition (e : ConditionError) : Unmarked e.message := by
  cases e with
  | unexpected text =>
    have hlead : Unmarked "Unexpected token '" := by decide
    exact (hlead.append _).append _
  | badConstant text =>
    have hlead : Unmarked "Invalid integer constant '" := by decide
    exact (hlead.append _).append _
  | _ => decide

/-- No fault but a failed include is told with the mark. -/
theorem unmarked_message {fault : Fault} (h : fault.isFailedInclude = false) :
    Unmarked fault.message := by
  cases fault with
  | expansion e => exact unmarked_expansion e
  | condition e => exact unmarked_condition e
  | nameMissing directive =>
    have hlead : Unmarked "#" := by decide
    exact (hlead.append _).append _
  | invalidParameter text =>
    have hlead : Unmarked "Invalid macro parameter '" := by decide
    exact (hlead.append _).append _
  | alreadyDefined name =>
    have hlead : Unmarked "'" := by decide
    exact (hlead.append _).append _
  | includeFailed name failure => cases h
  | errorDirective text =>
    cases text with
    | nil => decide
    | cons c text =>
      have hlead : Unmarked "#error " := by decide
      exact hlead.append _
  | unknownDirective name =>
    have hlead : Unmarked "Unknown directive #" := by decide
    exact hlead.append _
  | _ => decide

/-- A failed include is told with the mark, whatever the name and the reason are. -/
theorem marked_message (name : List Char) (failure : Include.Failure) :
    failureMark <+: (Fault.includeFailed name failure).message.toList := by
  change failureMark <+: ("Include file '" ++ String.ofList name ++ "' could not be opened: " ++
    failure.message).toList
  rw [String.toList_append, String.toList_append, String.toList_append, List.append_assoc,
    List.append_assoc]
  exact List.prefix_append _ _

/-- **The message of a fault tells whether it is a failed include.** -/
theorem aboutFailedInclude_message (file : Option String) (line : Nat) (fault : Fault) :
    aboutFailedInclude (.ofPosition file line fault.message) = fault.isFailedInclude := by
  change failureMark.isPrefixOf fault.message.toList = _
  cases hfault : fault.isFailedInclude with
  | false =>
    rw [Bool.eq_false_iff, ne_eq, List.isPrefixOf_iff_prefix]
    exact (unmarked_message hfault).1
  | true =>
    cases fault with
    | includeFailed name failure => exact List.isPrefixOf_iff_prefix.2 (marked_message name failure)
    | _ => cases hfault

/-! ## Directives that open nothing -/

/-- What is read may be at fault, but not for a file that could not be opened. -/
def OpensNothing {α : Type} (r : Except Fault α) : Prop :=
  ∀ fault, r = .error fault → fault.isFailedInclude = false

section

variable {α β : Type}

theorem opensNothing_ok (a : α) : OpensNothing (.ok a) := nofun

theorem opensNothing_error {fault : Fault} (h : fault.isFailedInclude = false) :
    OpensNothing (.error fault : Except Fault α) := by
  rintro _ ⟨⟩
  exact h

/-- Readers one after the other open nothing if none of them does. -/
theorem OpensNothing.bind {x : Except Fault α} {f : α → Except Fault β} (hx : OpensNothing x)
    (hf : ∀ a, OpensNothing (f a)) : OpensNothing (x >>= f) := by
  cases x with
  | error fault => exact opensNothing_error (hx fault rfl)
  | ok a => exact hf a

theorem opensNothing_mapError {ε : Type} {cause : ε → Fault}
    (h : ∀ e, (cause e).isFailedInclude = false) (r : Except ε α) :
    OpensNothing (r.mapError cause) := by
  cases r with
  | error e => exact opensNothing_error (h e)
  | ok a => exact opensNothing_ok a

theorem opensNothing_mapM {f : α → Except Fault β} (hf : ∀ a, OpensNothing (f a)) (as : List α) :
    OpensNothing (as.mapM f) := by
  induction as with
  | nil => exact opensNothing_ok []
  | cons a as ih =>
    rw [List.mapM_cons]
    exact (hf a).bind fun b => ih.bind fun bs => opensNothing_ok (b :: bs)

end

theorem opensNothing_macroName (directive : String) (arguments : List Char) :
    OpensNothing (macroName directive arguments) := by
  rw [macroName]
  split
  · exact opensNothing_ok _
  · exact opensNothing_error rfl

/-- The operator of conditions fails for names and brackets that are missing. -/
theorem opensNothing_answerDefined (table : MacroTable) (ts : List Token) :
    OpensNothing (answerDefined table ts) := by
  -- the cases with an induction hypothesis are those that go on with the rest of the tokens
  fun_induction answerDefined table ts with
  | case1 => exact opensNothing_ok []
  | case4 =>
    refine opensNothing_error ?_
    split
    · rfl
    · rfl
  | case5 t ht u hu name close rest hname hclose ih => exact ih.bind fun ts => opensNothing_ok _
  | case8 t ht u us hu hname ih => exact ih.bind fun ts => opensNothing_ok _
  | case10 t ts ht ih => exact ih.bind fun ts => opensNothing_ok _
  | case2 | case3 | case6 | case7 | case9 => exact opensNothing_error rfl

/-- A condition is answered, expanded and evaluated, and each of these has faults of its own. -/
theorem opensNothing_condition (table : MacroTable) (arguments : List Char) :
    OpensNothing (condition table arguments) := by
  refine (opensNothing_answerDefined table _).bind fun ts => ?_
  refine (opensNothing_mapError (fun _ => rfl) _).bind fun ts => ?_
  exact (opensNothing_mapError (fun _ => rfl) _).bind fun value => opensNothing_ok _

theorem opensNothing_openingHolds (table : MacroTable) (opening : Opening)
    (arguments : List Char) : OpensNothing (openingHolds table opening arguments) := by
  cases opening with
  | condition => exact opensNothing_condition table arguments
  | defined => exact (opensNothing_macroName _ arguments).bind fun name => opensNothing_ok _
  | undefined => exact (opensNothing_macroName _ arguments).bind fun name => opensNothing_ok _

theorem opensNothing_parameterList (text : List Char) : OpensNothing (parameterList text) := by
  rw [parameterList]
  split
  · exact opensNothing_ok []
  · refine opensNothing_mapM (fun a => ?_) _
    rw [parameter]
    split
    · exact opensNothing_ok _
    · exact opensNothing_error rfl

theorem opensNothing_definition (arguments : List Char) : OpensNothing (definition arguments) := by
  rw [definition]
  dsimp only
  split
  · exact opensNothing_error rfl
  · split
    · exact opensNothing_error rfl
    · split
      · split
        · exact opensNothing_error rfl
        · exact (opensNothing_parameterList _).bind fun parameters => opensNothing_ok _
      · exact opensNothing_ok _

/-- Reading the name of a file is not opening it. -/
theorem opensNothing_includeTarget (table : MacroTable) (arguments : List Char) :
    OpensNothing (includeTarget table arguments) := by
  rw [includeTarget]
  split
  · exact opensNothing_ok _
  · refine (opensNothing_mapError (fun _ => rfl) _).bind fun ts => ?_
    split
    · exact opensNothing_ok _
    · exact opensNothing_error rfl

theorem opensNothing_elif (table : MacroTable) (arguments : List Char) (g : Group) :
    OpensNothing (g.elif table arguments) := by
  rw [Group.elif]
  split
  · exact opensNothing_error rfl
  · split
    · exact opensNothing_ok _
    · exact (opensNothing_condition table arguments).bind fun holds => opensNothing_ok _

theorem opensNothing_otherwise (g : Group) : OpensNothing g.otherwise := by
  rw [Group.otherwise]
  split
  · exact opensNothing_error rfl
  · exact opensNothing_ok _

/-! ## Lines that open nothing -/

theorem isFailedInclude_of_modifyInnermost {missing : Fault} {change : Group → Except Fault Group}
    (hm : missing.isFailedInclude = false) (hc : ∀ g, OpensNothing (change g))
    (groups : List Group) :
    ∀ fault ∈ (Group.modifyInnermost missing change groups).2, fault.isFailedInclude = false := by
  cases groups with
  | nil =>
    rintro _ ⟨⟩
    exact hm
  | cons g outer =>
    rw [Group.modifyInnermost]
    cases hg : change g with
    | ok g' =>
      intro fault hfault
      cases hfault
    | error fault =>
      rintro _ ⟨⟩
      exact hc g fault hg

/-- Conditionals have no faults but those of their conditions and of the stack. -/
theorem isFailedInclude_of_apply (table : MacroTable) (c : Conditional) (groups : List Group) :
    ∀ fault ∈ (Group.apply table c groups).2, fault.isFailedInclude = false := by
  cases c with
  | opens opening arguments =>
    rw [Group.apply, Group.openWith]
    cases Group.keeps groups with
    | false =>
      intro fault hfault
      cases hfault
    | true =>
      rw [if_pos rfl]
      cases ho : openingHolds table opening arguments with
      | ok holds =>
        intro fault hfault
        cases hfault
      | error fault =>
        rintro _ ⟨⟩
        exact opensNothing_openingHolds table opening arguments fault ho
  | elif arguments =>
    exact isFailedInclude_of_modifyInnermost rfl (opensNothing_elif table arguments) groups
  | otherwise => exact isFailedInclude_of_modifyInnermost rfl opensNothing_otherwise groups
  | endif =>
    cases groups with
    | nil =>
      rintro _ ⟨⟩
      rfl
    | cons g outer =>
      intro fault hfault
      cases hfault

/-- The diagnostics are those before, and the fault is not a failed include. -/
def AddsNoFailure (s : Session σ) (r : Session σ × Option Fault) : Prop :=
  r.1.diagnostics = s.diagnostics ∧ ∀ fault ∈ r.2, fault.isFailedInclude = false

/-- An action that fails leaves the session as it was. -/
theorem addsNoFailure_attempt {s : Session σ} {r : Except Fault (Session σ)} (hr : OpensNothing r)
    (hs : ∀ s', r = .ok s' → s'.diagnostics = s.diagnostics) : AddsNoFailure s (attempt s r) := by
  cases r with
  | ok s' => exact ⟨hs s' rfl, nofun⟩
  | error fault =>
    refine ⟨rfl, ?_⟩
    rintro _ ⟨⟩
    exact hr fault rfl

theorem addsNoFailure_define (s : Session σ) (arguments : List Char) :
    AddsNoFailure s (attempt s do
      let (name, m) ← definition arguments
      match s.macros.define? name m with
      | some macros => return { s with macros }
      | none => throw (.alreadyDefined name)) := by
  apply addsNoFailure_attempt
  · refine (opensNothing_definition arguments).bind fun target => ?_
    dsimp only
    split
    · exact opensNothing_ok _
    · exact opensNothing_error rfl
  · intro s' hs'
    cases hd : definition arguments with
    | error fault =>
      rw [hd] at hs'
      cases hs'
    | ok target =>
      rw [hd] at hs'
      simp only [bind, Except.bind] at hs'
      split at hs'
      · cases hs'
        rfl
      · cases hs'

theorem addsNoFailure_undefine (s : Session σ) (arguments : List Char) :
    AddsNoFailure s (attempt s do
      let name ← macroName "undef" arguments
      return { s with macros := s.macros.erase name }) := by
  apply addsNoFailure_attempt
  · exact (opensNothing_macroName "undef" arguments).bind fun name => opensNothing_ok _
  · intro s' hs'
    cases hn : macroName "undef" arguments with
    | error fault =>
      rw [hn] at hs'
      cases hs'
    | ok name =>
      rw [hn] at hs'
      cases hs'
      rfl

/-- An include is too deep at most, as there is nothing to run it with. -/
theorem addsNoFailure_runAction (h : Include.Handler σ) (file : String) (a : Action)
    (s : Session σ) : AddsNoFailure s (runAction h none file a s) := by
  cases a with
  | nothing => exact ⟨rfl, by rintro _ ⟨⟩⟩
  | define arguments => exact addsNoFailure_define s arguments
  | undefine arguments => exact addsNoFailure_undefine s arguments
  | «include» arguments =>
    rw [runAction, runInclude]
    cases hi : includeTarget s.macros arguments with
    | error fault =>
      refine ⟨rfl, ?_⟩
      rintro _ ⟨⟩
      exact opensNothing_includeTarget s.macros arguments fault hi
    | ok target =>
      refine ⟨rfl, ?_⟩
      rintro _ ⟨⟩
      rfl
  | error text =>
    refine ⟨rfl, ?_⟩
    rintro _ ⟨⟩
    rfl
  | pragma line => exact ⟨rfl, by rintro _ ⟨⟩⟩
  | unknown name =>
    refine ⟨rfl, ?_⟩
    rintro _ ⟨⟩
    rfl

theorem addsNoFailure_runText (line : List Char) (s : Session σ) :
    AddsNoFailure s (runText line s) := by
  rw [runText]
  cases expand s.macros (tokenize line) with
  | ok ts => exact ⟨rfl, by rintro _ ⟨⟩⟩
  | error e =>
    refine ⟨rfl, ?_⟩
    rintro _ ⟨⟩
    rfl

/-! ## What a session has reported -/

/-- The diagnostics about include files that could not be opened, in the order of their coming. -/
def Session.failures (s : Session σ) : List Diagnostic :=
  s.diagnostics.toList.filter aboutFailedInclude

/-- One more diagnostic is one more failure, if it is about a file. -/
theorem failures_report (s : Session σ) (file : String) (line : Nat) (fault : Fault) :
    (s.report file line (some fault)).failures =
      s.failures ++
        if fault.isFailedInclude then [.ofPosition (some file) line fault.message] else [] := by
  change (s.diagnostics.push (.ofPosition (some file) line fault.message)).toList.filter
    aboutFailedInclude = _
  rw [Array.toList_push, List.filter_append, List.filter_cons, List.filter_nil,
    aboutFailedInclude_message]
  rfl

theorem failures_report_of_isFailedInclude {fault? : Option Fault}
    (hf : ∀ fault ∈ fault?, fault.isFailedInclude = false) (s : Session σ) (file : String)
    (line : Nat) : (s.report file line fault?).failures = s.failures := by
  cases fault? with
  | none => rfl
  | some fault =>
    rw [failures_report, hf fault rfl]
    exact List.append_nil _

theorem failures_report_of_addsNoFailure {s : Session σ} {r : Session σ × Option Fault}
    (hr : AddsNoFailure s r) (file : String) (line : Nat) :
    (r.1.report file line r.2).failures = s.failures := by
  rw [failures_report_of_isFailedInclude hr.2]
  exact congrArg (fun ds : Array Diagnostic => ds.toList.filter aboutFailedInclude) hr.1

/-- **Only an include adds to the failures.** -/
theorem failures_runStripped (h : Include.Handler σ) (file : String) (number : Nat) (line : Line)
    (st : FileState σ) :
    (runStripped h none file number line st).session.failures = st.session.failures := by
  obtain ⟨groups, inBlock, s⟩ := st
  cases line with
  | conditional c =>
    exact failures_report_of_isFailedInclude (isFailedInclude_of_apply s.macros c groups) s file
      number
  | action a =>
    rw [runStripped]
    dsimp only
    split
    · exact failures_report_of_addsNoFailure (addsNoFailure_runAction h file a s) file number
    · rfl
  | text t =>
    rw [runStripped]
    dsimp only
    split
    · exact failures_report_of_addsNoFailure (addsNoFailure_runText t s) file number
    · rfl

theorem failures_runLine (h : Include.Handler σ) (file : String) (line : LogicalLine)
    (st : FileState σ) :
    (runLine h none file st line).session.failures = st.session.failures := by
  rw [runLine_eq]
  exact failures_runStripped h file line.number _ st

/-- What is reported at the end of a file is about groups and comments. -/
theorem failures_finish (file : String) (last : Nat) (st : FileState σ) :
    (finish file last st).failures = st.session.failures := by
  rw [finish, failures_report_of_isFailedInclude, failures_report_of_isFailedInclude]
  · intro fault hfault
    split at hfault
    · cases hfault
      rfl
    · cases hfault
  · intro fault hfault
    split at hfault
    · cases hfault
    · cases hfault
      rfl

end Preprocess
end ShaderKit
