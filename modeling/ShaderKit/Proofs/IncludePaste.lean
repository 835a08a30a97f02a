import ShaderKit.Proofs.IncludeLine
import ShaderKit.Proofs.RunAgreement

/-!
# Including a file is pasting its text

An included file runs with groups and comments of its own, under its own name, and with less room
for further includes.  None of this shows in the end if the file is *closed* (`IsClosed`): it leaves
no group, no comment and no line open, and divides and ends no group that it has not opened.  Then
its text may as well stand where the `#include` line does (`agrees_paste`).

Two facts carry this.  Groups that are open around balanced lines are not touched by them
(`runStrippedLines_within`), and what else is different about the pasted text, its place and
the room for includes, does not matter to its lines (`agrees_runStrippedLines`).
-/

set_option autoImplicit false

namespace ShaderKit
namespace Preprocess

variable {σ : Type}

/-! ## Closed texts -/

/-- How many of the groups opened by some lines are open after one more line, if `n` were before it.
There is no answer if the line divides or ends a group that those lines have not opened. -/
def Line.nesting? (line : Line) (n : Nat) : Option Nat :=
  match line with
  | .conditional (.opens _ _) => some (n + 1)
  | .conditional .endif => if n = 0 then none else some (n - 1)
  | .conditional _ => if n = 0 then none else some n
  | _ => some n

/-- Every `#elif`, `#else` and `#endif` belongs to a group that these lines open, and every such
group is ended.  A second `#else` in a group is a fault wherever the lines stand, so it does no
harm. -/
def IsBalanced (lines : List StrippedLine) : Prop :=
  lines.foldlM (fun n l => l.line.nesting? n) 0 = some 0

instance (lines : List StrippedLine) : Decidable (IsBalanced lines) :=
  inferInstanceAs (Decidable (_ = _))

/-- What the text opens it also ends: groups, comments and logical lines. -/
structure IsClosed (text : List Char) : Prop where
  balanced : IsBalanced (strippedLines false (LogicalLine.ofText text)).1
  outsideComments : (strippedLines false (LogicalLine.ofText text)).2 = false
  notContinued : LogicalLine.NotContinued (Text.physicalLines text)

theorem SameLines.nesting {lines lines' : List StrippedLine} (h : SameLines lines lines')
    (n : Nat) :
    lines.foldlM (fun n l => l.line.nesting? n) n =
      lines'.foldlM (fun n l => l.line.nesting? n) n := by
  have hmap (ls : List StrippedLine) : ls.foldlM (fun n l => l.line.nesting? n) n =
      (ls.map (·.line)).foldlM (fun n line => line.nesting? n) n := by
    rw [List.foldlM_map]
  rw [hmap, hmap, h]

/-! ## Groups around lines -/

theorem keeps_append (groups : List Group) {outer : List Group} (hk : Group.keeps outer = true) :
    Group.keeps (groups ++ outer) = Group.keeps groups := by
  cases groups with
  | nil => exact hk
  | cons g groups => rfl

theorem modifyInnermost_append {groups : List Group} (hg : groups ≠ []) (outer : List Group)
    (missing : Fault) (change : Group → Except Fault Group) :
    Group.modifyInnermost missing change (groups ++ outer) =
      ((Group.modifyInnermost missing change groups).1 ++ outer,
        (Group.modifyInnermost missing change groups).2) ∧
      (Group.modifyInnermost missing change groups).1.length = groups.length := by
  cases groups with
  | nil => exact absurd rfl hg
  | cons g groups =>
    rw [List.cons_append, Group.modifyInnermost, Group.modifyInnermost]
    cases change g with
    | ok g' => exact ⟨rfl, rfl⟩
    | error fault => exact ⟨rfl, rfl⟩

/-- A conditional directive that belongs to a group of its own lines does not see the groups around
them. -/
theorem apply_append (table : MacroTable) (c : Conditional) {groups outer : List Group} {n : Nat}
    (hn : (Line.conditional c).nesting? groups.length = some n)
    (hk : Group.keeps outer = true) :
    Group.apply table c (groups ++ outer) =
      ((Group.apply table c groups).1 ++ outer, (Group.apply table c groups).2) ∧
      (Group.apply table c groups).1.length = n := by
  cases c with
  | opens opening arguments =>
    have hlength : groups.length + 1 = n := by simpa [Line.nesting?] using hn
    simp only [Group.apply, Group.openWith, keeps_append groups hk]
    split
    · split
      · exact ⟨rfl, hlength⟩
      · exact ⟨rfl, hlength⟩
    · exact ⟨rfl, hlength⟩
  | elif arguments =>
    obtain ⟨hne, hlength⟩ : groups ≠ [] ∧ groups.length = n := by simpa [Line.nesting?] using hn
    rw [← hlength]
    exact modifyInnermost_append hne outer _ _
  | otherwise =>
    obtain ⟨hne, hlength⟩ : groups ≠ [] ∧ groups.length = n := by simpa [Line.nesting?] using hn
    rw [← hlength]
    exact modifyInnermost_append hne outer _ _
  | endif =>
    obtain ⟨hne, hlength⟩ : groups ≠ [] ∧ groups.length - 1 = n := by
      simpa [Line.nesting?] using hn
    cases groups with
    | nil => exact absurd rfl hne
    | cons g groups => exact ⟨rfl, hlength⟩

/-- The state with more groups around those that are open. -/
def FileState.within (st : FileState σ) (outer : List Group) : FileState σ :=
  { st with groups := st.groups ++ outer }

section

variable (h : Include.Handler σ) (nested : Option (FileRunner σ)) (file : String)
  {outer : List Group} (hk : Group.keeps outer = true)

include hk

theorem runStripped_within (number : Nat) (line : Line) (st : FileState σ) {n : Nat}
    (hn : line.nesting? st.groups.length = some n) :
    runStripped h nested file number line (st.within outer) =
        (runStripped h nested file number line st).within outer ∧
      (runStripped h nested file number line st).groups.length = n := by
  obtain ⟨groups, inBlock, s⟩ := st
  cases line with
  | conditional c =>
    obtain ⟨happly, hlength⟩ := apply_append s.macros c hn hk
    refine ⟨?_, hlength⟩
    simp only [runStripped, FileState.within, happly]
  | action a =>
    have hlength : groups.length = n := by simpa [Line.nesting?] using hn
    simp only [runStripped, FileState.within, keeps_append groups hk]
    split
    · exact ⟨rfl, hlength⟩
    · exact ⟨rfl, hlength⟩
  | text line =>
    have hlength : groups.length = n := by simpa [Line.nesting?] using hn
    simp only [runStripped, FileState.within, keeps_append groups hk]
    split
    · exact ⟨rfl, hlength⟩
    · exact ⟨rfl, hlength⟩

/-- **Balanced lines leave the groups around them alone**, and are run as if there were none. -/
theorem runStrippedLines_within (lines : List StrippedLine) (st : FileState σ) {n : Nat}
    (hn : lines.foldlM (fun n l => l.line.nesting? n) st.groups.length = some n) :
    runStrippedLines h nested file lines (st.within outer) =
        (runStrippedLines h nested file lines st).within outer ∧
      (runStrippedLines h nested file lines st).groups.length = n := by
  induction lines generalizing st with
  | nil => exact ⟨rfl, Option.some.inj hn⟩
  | cons l lines ih =>
    rw [List.foldlM_cons, Option.bind_eq_bind, Option.bind_eq_some_iff] at hn
    obtain ⟨k, hline, hlines⟩ := hn
    obtain ⟨hwithin, hlength⟩ := runStripped_within h nested file hk l.number l.line st hline
    rw [← hlength] at hlines
    rw [runStrippedLines_cons, hwithin, runStrippedLines_cons]
    exact ih _ hlines

end

/-! ## The place of the line -/

/-- Where the reading of a file stands after the lines of `text`. -/
def stateAfter (h : Include.Handler σ) (depth : Nat) (file : String) (text : List Char)
    (s : Session σ) : FileState σ :=
  (LogicalLine.ofText text).foldl (runLine h (included h depth) file) ⟨[], false, s⟩

/-- The last line of the text is ended and does not go on in the next one, if there is a line at
all. -/
def EndsLogicalLine (text : List Char) : Prop :=
  Text.EndsLine text ∧ LogicalLine.NotContinued (Text.physicalLines text)

/-! ## Where the lines of a file come from -/

theorem physicalLines_including {before line ending after name : List Char} {st : FileState σ}
    (hbefore : Text.EndsLine before) (hline : IncludesAlone line name st)
    (hending : ending = ['\n'] ∨ ending = [] ∧ after = []) :
    Text.physicalLines (before ++ line ++ ending ++ after) =
      Text.physicalLines before ++ ([line] ++ Text.physicalLines after) := by
  simp only [List.append_assoc]
  rw [Text.physicalLines_append hbefore]
  rcases hending with rfl | ⟨rfl, rfl⟩
  · rw [← List.append_assoc, Text.physicalLines_append (Or.inr ⟨line, rfl⟩),
      Text.physicalLines_line hline.oneLine]
  · rw [List.append_nil, List.append_nil,
      Text.physicalLines_of_not_mem hline.oneLine hline.line_ne_nil]
    rfl

theorem strippedLines_single {line : List Char} (h : LogicalLine.continued? line = none) (n : Nat) :
    strippedLines false (LogicalLine.splice n [line]) =
      ([⟨n, Line.classify (stripComments false line).1⟩], (stripComments false line).2) := by
  rw [LogicalLine.splice_cons_of_none h]
  rfl

theorem physicalLines_pasted {before : List Char} (hbefore : Text.EndsLine before)
    (text after : List Char) :
    Text.physicalLines (before ++ Text.endLine text ++ after) =
      Text.physicalLines before ++ (Text.physicalLines text ++ Text.physicalLines after) := by
  rw [List.append_assoc, Text.physicalLines_append hbefore,
    Text.physicalLines_append (Text.endsLine_endLine text), Text.physicalLines_endLine]

section

variable {h : Include.Handler σ} {depth : Nat} {file : String} {before : List Char}
  {s : Session σ}

theorem stateAfter_eq :
    stateAfter h depth file before s =
      { runStrippedLines h (included h depth) file
          (strippedLines false (LogicalLine.ofText before)).1 ⟨[], false, s⟩ with
        inBlock := (strippedLines false (LogicalLine.ofText before)).2 } :=
  foldl_runLine h (included h depth) file (LogicalLine.ofText before) ⟨[], false, s⟩

/-- A file whose lines come from three texts, where no comment is open at either seam: the lines of
the second are run after those of the first, and then those of the third. -/
theorem runFile_of_physicalLines {text : List Char} {middle after : List (List Char)}
    (htext : Text.physicalLines text = Text.physicalLines before ++ (middle ++ after))
    (hbefore : LogicalLine.NotContinued (Text.physicalLines before))
    (hmiddle : LogicalLine.NotContinued middle)
    (houtside : (stateAfter h depth file before s).inBlock = false)
    (hclosed : ∀ n, (strippedLines false (LogicalLine.splice n middle)).2 = false) :
    ∃ n m, runFile h depth file text s =
      finish file (lastLine text)
        { runStrippedLines h (included h depth) file
            (strippedLines false (LogicalLine.splice m after)).1
            (runStrippedLines h (included h depth) file
              (strippedLines false (LogicalLine.splice n middle)).1
              (stateAfter h depth file before s)) with
          inBlock := (strippedLines false (LogicalLine.splice m after)).2 } := by
  have hblock : (strippedLines false (LogicalLine.ofText before)).2 = false := by
    rwa [stateAfter_eq] at houtside
  have hlines : LogicalLine.ofText text = LogicalLine.ofText before ++
      (LogicalLine.splice (1 + (Text.physicalLines before).length) middle ++
        LogicalLine.splice (1 + (Text.physicalLines before).length + middle.length) after) := by
    rw [LogicalLine.ofText, htext, LogicalLine.splice_append hbefore,
      LogicalLine.splice_append hmiddle]
    rfl
  refine ⟨1 + (Text.physicalLines before).length,
    1 + (Text.physicalLines before).length + middle.length, ?_⟩
  rw [runFile_eq_finish, hlines, strippedLines_append, hblock, strippedLines_append, hclosed,
    stateAfter_eq]
  simp only [runStrippedLines_append, runStrippedLines_inBlock]

theorem inBlock_runStrippedLines (nested : Option (FileRunner σ)) (lines : List StrippedLine)
    (st : FileState σ) : (runStrippedLines h nested file lines st).inBlock = st.inBlock := by
  have hblock := runStrippedLines_inBlock h nested file lines st st.inBlock
  exact congrArg (·.inBlock) hblock

/-- Balanced lines leave no group open. -/
theorem groups_runStrippedLines {lines : List StrippedLine} (hlines : IsBalanced lines)
    (nested : Option (FileRunner σ)) :
    (runStrippedLines h nested file lines ⟨[], false, s⟩).groups = [] :=
  have hkeeps : Group.keeps [] = true := rfl
  List.length_eq_zero_iff.1
    (runStrippedLines_within h nested file hkeeps lines ⟨[], false, s⟩ hlines).2

/-- A closed file leaves the session that its lines leave: there is nothing to report at its end. -/
theorem runFile_of_isClosed {text : List Char} (hclosed : IsClosed text) :
    runFile h depth file text s =
      (runStrippedLines h (included h depth) file
        (strippedLines false (LogicalLine.ofText text)).1 ⟨[], false, s⟩).session := by
  rw [runFile_eq_finish, hclosed.outsideComments, finish,
    groups_runStrippedLines hclosed.balanced]
  rfl

end

/-- The text of a file of these bytes. -/
def fileText (bytes : List UInt8) : List Char := Text.normaliseNewlines (Utf8.decode bytes)

section

variable {h : Include.Handler σ} {files : String → Except Include.Failure (List UInt8)}
  (hfiles : h.Serves files)

include hfiles

/-- **A closed file comes to the same as its lines.**  To run it where it is included is to run its
lines there. -/
theorem agrees_pasted {text : List Char} (hclosed : IsClosed text) {depth depth' : Nat}
    (hdepth : depth ≤ depth') (name file : String) {s : Session σ} {st : FileState σ}
    (hs : s.Agrees st.session) (hk : Group.keeps st.groups = true) (houtside : st.inBlock = false)
    (n : Nat) (hshallow : (runFile h depth name text s).Shallow) :
    FileState.Agrees { st with session := runFile h depth name text s }
      (runStrippedLines h (included h depth') file
        (strippedLines false (LogicalLine.splice n (Text.physicalLines text))).1 st) := by
  obtain ⟨groups, _, t⟩ := st
  cases houtside
  have hsame : SameLines (strippedLines false (LogicalLine.ofText text)).1
      (strippedLines false (LogicalLine.splice n (Text.physicalLines text))).1 :=
    (strippedLines_congr (LogicalLine.texts_splice 1 n _) false).1
  have hbalanced : IsBalanced
      (strippedLines false (LogicalLine.splice n (Text.physicalLines text))).1 :=
    (hsame.nesting 0).symm.trans hclosed.balanced
  have hwithin := (runStrippedLines_within h (included h depth') file hk _ ⟨[], false, t⟩
    hbalanced).1
  rw [runFile_of_isClosed hclosed] at hshallow ⊢
  have hstart : FileState.Agrees ⟨[], false, s⟩ ⟨[], false, t⟩ := ⟨rfl, rfl, hs⟩
  have hinner := agrees_runStrippedLines hfiles hfiles (agreeNested_included hfiles hfiles hdepth)
    (onlyExtends_included h depth) name file hsame hstart hshallow
  change FileState.Agrees _ (runStrippedLines h (included h depth') file _
    (FileState.within ⟨[], false, t⟩ groups))
  rw [hwithin]
  refine ⟨?_, ?_, hinner.session⟩
  · change groups = (runStrippedLines _ _ _ _ _).groups ++ groups
    rw [groups_runStrippedLines hbalanced, List.nil_append]
  · change false = (runStrippedLines _ _ _ _ ⟨[], false, t⟩).inBlock
    rw [inBlock_runStrippedLines]

theorem exists_acquire {name : String} {bytes : List UInt8} (hname : files name = .ok bytes) (s : σ)
    (kind : Include.Kind) (parent : Option String) :
    ∃ handle handler, h.acquire s ⟨kind, name, parent⟩ = (.ok handle, handler) ∧
      handle.data = bytes := by
  have hserved := hfiles s ⟨kind, name, parent⟩
  rw [hname] at hserved
  rcases hanswer : h.acquire s ⟨kind, name, parent⟩ with ⟨failure | handle, handler⟩
  · rw [hanswer] at hserved
    cases hserved
  · rw [hanswer] at hserved
    exact ⟨handle, handler, rfl, Except.ok.inj hserved⟩

/-- The line that includes a closed file and the lines of its text, put in the place of that line,
leave states that agree. -/
theorem agrees_include {name line : List Char} {bytes : List UInt8}
    (hname : files (String.ofList name) = .ok bytes) (hclosed : IsClosed (fileText bytes))
    {depth : Nat} {file : String} {st : FileState σ} (hline : IncludesAlone line name st)
    (n m : Nat)
    (hshallow : (runStripped h (included h depth) file n
      (Line.classify (stripComments false line).1) st).session.Shallow) :
    (runStripped h (included h depth) file n
        (Line.classify (stripComments false line).1) st).Agrees
      (runStrippedLines h (included h depth) file
        (strippedLines false
          (LogicalLine.splice m (Text.physicalLines (fileText bytes)))).1 st) := by
  obtain ⟨kind, ht⟩ := hline.target
  obtain ⟨-, -, hk, -⟩ := exists_of_target?_eq_some ht
  cases depth with
  | zero =>
    rw [included, runStripped_none_of_target? ht] at hshallow
    exact absurd hshallow (Session.not_shallow_report _ file n)
  | succ depth =>
    obtain ⟨handle, handler, hanswer, rfl⟩ :=
      exists_acquire hfiles hname st.session.handler kind (some file)
    rw [included, runStripped_some_of_opened ht hanswer] at hshallow ⊢
    exact agrees_pasted hfiles hclosed (Nat.le_succ depth) (String.ofList name) file
      ((Session.Agrees.refl st.session).handlers _ st.session.handler) hk hline.outside m hshallow

/-- **Including a file is pasting its text**, in a file at any depth and from any session. -/
theorem agrees_paste {before line ending after name : List Char} {bytes : List UInt8}
    {depth : Nat} {file : String} {s : Session σ} (hname : files (String.ofList name) = .ok bytes)
    (hclosed : IsClosed (fileText bytes)) (hbefore : EndsLogicalLine before)
    (hline : IncludesAlone line name (stateAfter h depth file before s))
    (hending : ending = ['\n'] ∨ ending = [] ∧ after = [])
    (hshallow : (runFile h depth file (before ++ line ++ ending ++ after) s).Shallow) :
    (runFile h depth file (before ++ line ++ ending ++ after) s).Agrees
      (runFile h depth file (before ++ Text.endLine (fileText bytes) ++ after) s) := by
  have hsingle : LogicalLine.NotContinued [line] := by
    rintro _ ⟨⟩
    exact hline.notContinued
  have hsingleClosed (n : Nat) : (strippedLines false (LogicalLine.splice n [line])).2 = false := by
    rw [strippedLines_single hline.notContinued, hline.closed]
  have htextClosed (n : Nat) : (strippedLines false
      (LogicalLine.splice n (Text.physicalLines (fileText bytes)))).2 = false :=
    (strippedLines_congr (LogicalLine.texts_splice n 1 _) false).2.trans hclosed.outsideComments
  obtain ⟨n, m, hincluding⟩ := runFile_of_physicalLines
    (physicalLines_including hbefore.1 hline hending) hbefore.2 hsingle hline.outside hsingleClosed
  obtain ⟨n', m', hpasted⟩ := runFile_of_physicalLines
    (physicalLines_pasted hbefore.1 (fileText bytes) after) hbefore.2 hclosed.notContinued
    hline.outside htextClosed
  rw [strippedLines_single hline.notContinued, runStrippedLines_cons,
    runStrippedLines_nil] at hincluding
  rw [hincluding] at hshallow ⊢
  rw [hpasted]
  have hextends := onlyExtends_included h depth
  have hafter := (extends_finish _ _ _ _).shallow hshallow
  have hmiddle := agrees_include hfiles hname hclosed hline n n'
    ((extends_runStrippedLines hextends file _ _).shallow hafter)
  obtain ⟨hrest, hblock⟩ := strippedLines_congr
    (LogicalLine.texts_splice m m' (Text.physicalLines after)) false
  rw [← hblock]
  exact agrees_finish (agrees_runStrippedLines hfiles hfiles
    (agreeNested_included hfiles hfiles (Nat.le_refl depth)) hextends file file hrest hmiddle
    hafter) file file _ _ _

end

/-! ## Outcomes -/

/-- The outcomes are the same but for the places that diagnostics give. -/
def SameOutcome : Outcome → Outcome → Prop
  | .success output, .success output' => output = output'
  | .failure ds, .failure ds' => ds.map (·.message) = ds'.map (·.message)
  | _, _ => False

theorem Session.Agrees.sameOutcome {s t : Session σ} (hst : s.Agrees t) :
    SameOutcome (.ofParts s.diagnostics.toList (Utf8.encode s.text))
      (.ofParts t.diagnostics.toList (Utf8.encode t.text)) := by
  have hmessages : s.diagnostics.toList.map (·.message) = t.diagnostics.toList.map (·.message) :=
    hst.messages
  rw [Session.text, Session.text, hst.output]
  cases hs : s.diagnostics.toList with
  | nil =>
    rw [hs] at hmessages
    rw [List.map_eq_nil_iff.1 hmessages.symm]
    rfl
  | cons d ds =>
    cases ht : t.diagnostics.toList with
    | nil =>
      rw [hs, ht] at hmessages
      cases hmessages
    | cons e es =>
      rw [hs, ht] at hmessages
      exact hmessages

/-- The session that a run begins with. -/
def initialSession (definitions : List Definition) (handler : σ) : Session σ :=
  { macros := predefine definitions, output := #[], diagnostics := #[], handler }

/-- **Including a file is pasting its text.**  The handler serves fixed files, and one of them is
closed.  A line of the source, between `before` and `after`, includes it.  If no include of the run
is one too many, then the source with the text of the file in the place of that line has the same
outcome, the places of diagnostics aside, and leaves the same macros. -/
theorem preprocess_paste (h : Include.Handler σ)
    (files : String → Except Include.Failure (List UInt8)) (hfiles : h.Serves files)
    (maxDepth : Nat) (filename : String) (definitions : List Definition) (handler : σ)
    (before line ending after name : List Char) (bytes : List UInt8)
    (hname : files (String.ofList name) = .ok bytes) (hclosed : IsClosed (fileText bytes))
    (hbefore : EndsLogicalLine before) (hending : ending = ['\n'] ∨ ending = [] ∧ after = [])
    (hline : IncludesAlone line name
      (stateAfter h maxDepth filename before (initialSession definitions handler)))
    (including pasted : Source)
    (hincluding : including =
      ⟨filename, String.ofList (before ++ line ++ ending ++ after), definitions⟩)
    (hpasted : pasted = ⟨filename,
      String.ofList (before ++ Text.endLine (fileText bytes) ++ after), definitions⟩)
    (hshallow : ∀ d ∈ ((engine maxDepth).preprocess h including handler).1.diagnostics,
      d.message ≠ "#include nested too deeply") :
    SameOutcome ((engine maxDepth).preprocess h including handler).1
        ((engine maxDepth).preprocess h pasted handler).1 ∧
      (runSource h maxDepth including handler).macros =
        (runSource h maxDepth pasted handler).macros := by
  have hrun (text : List Char) :
      runSource h maxDepth ⟨filename, String.ofList text, definitions⟩ handler =
        runFile h maxDepth filename text (initialSession definitions handler) := by
    rw [runSource, String.toList_ofList]
    rfl
  have hagree : (runSource h maxDepth including handler).Agrees
      (runSource h maxDepth pasted handler) := by
    rw [engine, diagnostics_ofParts] at hshallow
    rw [hincluding, hrun] at hshallow ⊢
    rw [hpasted, hrun]
    refine agrees_paste hfiles hname hclosed hbefore hline hending fun hmem => ?_
    obtain ⟨d, hd, hmessage⟩ := List.mem_map.1 hmem
    exact hshallow d hd hmessage
  exact ⟨hagree.sameOutcome, hagree.macros⟩

/-- A closed file that ends without a line feed, and reports something. -/
def noticeText : List Char := "#ifdef A\n#else\n#pragma once // b\n#error B\n#endif".toList

/-- The files of `noticeHandler`: there is only one. -/
def noticeFiles (name : String) : Except Include.Failure (List UInt8) :=
  if name = "t" then .ok (Utf8.encode noticeText) else .error (.notFound name [])

/-- A handler that serves `noticeFiles`. -/
def noticeHandler : Include.Handler Unit where
  acquire _ request := ((noticeFiles request.name).map fun bytes => ⟨request.name, bytes⟩, ())
  release _ _ := ()

theorem serves_notice : noticeHandler.Serves noticeFiles := by
  intro s request
  cases hfile : noticeFiles request.name with
  | error failure => simp [noticeHandler, hfile, Except.map]
  | ok bytes => simp [noticeHandler, hfile, Except.map]

theorem isClosed_notice : IsClosed noticeText where
  balanced := by decide
  outsideComments := by decide
  notContinued := by
    rintro _ ⟨⟩
    decide

/-- A source that includes the file inside a group, and the source with its text instead. -/
def includingNotice : Source :=
  ⟨"main", String.ofList
    ("#ifndef A\n".toList ++ includeLine ['t'] ++ ['\n'] ++ "#endif".toList), []⟩

/-- The same source with the text of the file, its last line ended. -/
def pastedNotice : Source :=
  ⟨"main", String.ofList ("#ifndef A\n".toList ++ Text.endLine noticeText ++ "#endif".toList), []⟩

theorem preprocess_paste_notice :
    SameOutcome ((engine 1).preprocess noticeHandler includingNotice ()).1
        ((engine 1).preprocess noticeHandler pastedNotice ()).1 ∧
      (runSource noticeHandler 1 includingNotice ()).macros =
        (runSource noticeHandler 1 pastedNotice ()).macros := by
  have htext : fileText (Utf8.encode noticeText) = noticeText := by decide
  have hbefore : EndsLogicalLine "#ifndef A\n".toList :=
    ⟨.inr ⟨"#ifndef A".toList, rfl⟩, by rintro _ ⟨⟩; decide⟩
  have hline : IncludesAlone (includeLine ['t']) ['t']
      (stateAfter noticeHandler 1 "main" "#ifndef A\n".toList (initialSession [] ())) :=
    includesAlone_includeLine (by decide) (by decide) (by decide) (by decide) (by decide)
  have hmessages : ∀ d ∈ ((engine 1).preprocess noticeHandler includingNotice ()).1.diagnostics,
      d.message ≠ "#include nested too deeply" := by
    decide +kernel
  have hpasted : pastedNotice = ⟨"main", String.ofList ("#ifndef A\n".toList ++
      Text.endLine (fileText (Utf8.encode noticeText)) ++ "#endif".toList), []⟩ := by
    rw [htext, pastedNotice]
  exact preprocess_paste noticeHandler noticeFiles serves_notice 1 "main" [] ()
    "#ifndef A\n".toList (includeLine ['t']) ['\n'] "#endif".toList ['t']
    (Utf8.encode noticeText) rfl (htext.symm ▸ isClosed_notice) hbefore (.inl rfl) hline
    includingNotice pastedNotice rfl hpasted hmessages

end Preprocess
end ShaderKit
