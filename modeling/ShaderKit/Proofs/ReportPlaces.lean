import Mathlib.Algebra.Group.Nat.Defs
import Mathlib.Data.List.Basic
import Mathlib.Data.List.Pairwise
import ShaderKit.Proofs.FaultyLine
import ShaderKit.Proofs.TextSeams

/-!
# Where a file reports

A run of a file, `Invocation`, reports what is wrong with its lines and what is open at its end.
What a file that it includes reports in between is another invocation's.  `Invocation.reports` are
the diagnostics of one invocation, in the order in which they are added, the others left out;
together they are everything that is added (`Invocation.diagnostics_result`).

These diagnostics name the file, and they are in order (`Invocation.reportsInOrder`): a logical line
is reported at most once, at its first physical line, and the end of the file at the last physical
line.  A line is told by the physical lines that make it up (`LogicalLine.IsMadeOf`); that `splice`
cuts the text into such lines, with numbers that grow, is the first half of this file.
-/

set_option autoImplicit false

namespace ShaderKit
namespace Preprocess

/-! ## Logical lines -/

namespace LogicalLine

/-- A physical line without the backslash that continues it. -/
def uncontinued (raw : List Char) : List Char := (continued? raw).getD raw

/-- A logical line stands among physical lines, the first of which has the number `n`.  It takes up
some of them, and goes on for as long as they are continued. -/
structure IsMadeOf (n : Nat) (before own after : List (List Char)) (line : LogicalLine) : Prop where
  ne_nil : own ≠ []
  number : line.number = n + before.length
  text : line.text = own.flatMap uncontinued
  begins : NotContinued before
  continues : ∀ raw ∈ own.dropLast, (continued? raw).isSome
  ends : NotContinued own ∨ after = []

/-- What `splice` makes of a physical line in front of others. -/
theorem splice_cons (n : Nat) (raw : List Char) (raws : List (List Char)) :
    (continued? raw = none ∧ splice n (raw :: raws) = ⟨n, raw⟩ :: splice (n + 1) raws) ∨
    (∃ body, continued? raw = some body ∧ raws = [] ∧ splice n (raw :: raws) = [⟨n, body⟩]) ∨
    ∃ body next lines, continued? raw = some body ∧ splice (n + 1) raws = next :: lines ∧
      splice n (raw :: raws) = ⟨n, body ++ next.text⟩ :: lines := by
  cases hraw : continued? raw with
  | none => exact .inl ⟨rfl, splice_cons_of_none hraw n raws⟩
  | some body =>
    cases raws with
    | nil =>
      refine .inr (.inl ⟨body, rfl, rfl, ?_⟩)
      rw [splice, hraw]
      rfl
    | cons second raws =>
      obtain ⟨next, lines, hnext⟩ :=
        List.exists_cons_of_ne_nil (splice_ne_nil (List.cons_ne_nil second raws) (n + 1))
      exact .inr (.inr ⟨body, next, lines, rfl, hnext, splice_cons_of_some hraw hnext⟩)

theorem number_of_splice_eq_cons {n : Nat} {raws : List (List Char)} {next : LogicalLine}
    {lines : List LogicalLine} (h : splice n raws = next :: lines) : next.number = n := by
  cases raws with
  | nil => cases h
  | cons raw raws =>
    rcases splice_cons n raw raws with ⟨-, hsplice⟩ | ⟨body, -, -, hsplice⟩ |
      ⟨body, next', lines', -, -, hsplice⟩ <;>
    · rw [hsplice] at h
      cases h
      rfl

theorem le_number {n : Nat} {raws : List (List Char)} :
    ∀ line ∈ splice n raws, n ≤ line.number := by
  induction raws generalizing n with
  | nil => exact nofun
  | cons raw raws ih =>
    intro line hline
    rcases splice_cons n raw raws with ⟨-, hsplice⟩ | ⟨body, -, -, hsplice⟩ |
      ⟨body, next, lines, -, hnext, hsplice⟩
    · rw [hsplice] at hline
      rcases List.mem_cons.1 hline with rfl | hline
      · exact Nat.le_refl n
      · exact Nat.le_of_succ_le (ih line hline)
    · rw [hsplice, List.mem_singleton] at hline
      subst hline
      exact Nat.le_refl n
    · rw [hsplice] at hline
      rcases List.mem_cons.1 hline with rfl | hline
      · exact Nat.le_refl n
      · exact Nat.le_of_succ_le (ih line (hnext ▸ List.mem_cons_of_mem next hline))

/-- **The numbers of logical lines grow.** -/
theorem pairwise_number (n : Nat) (raws : List (List Char)) :
    (splice n raws).Pairwise (·.number < ·.number) := by
  induction raws generalizing n with
  | nil => exact .nil
  | cons raw raws ih =>
    rcases splice_cons n raw raws with ⟨-, hsplice⟩ | ⟨body, -, -, hsplice⟩ |
      ⟨body, next, lines, -, hnext, hsplice⟩
    · rw [hsplice]
      exact List.pairwise_cons.2 ⟨le_number, ih (n + 1)⟩
    · rw [hsplice]
      exact List.pairwise_singleton _ _
    · have hrest := ih (n + 1)
      rw [hnext] at hrest
      rw [hsplice]
      refine List.pairwise_cons.2 ⟨fun line hline => ?_, (List.pairwise_cons.1 hrest).2⟩
      exact le_number line (hnext ▸ List.mem_cons_of_mem next hline)

theorem NotContinued.cons {raw : List Char} {raws : List (List Char)} (h : NotContinued raws)
    (hraw : raws = [] → continued? raw = none) : NotContinued (raw :: raws) := by
  cases raws with
  | nil =>
    rintro _ ⟨⟩
    exact hraw rfl
  | cons next raws =>
    intro last hlast
    exact h last (by rwa [List.getLast?_cons_cons] at hlast)

section

variable {n : Nat} {raw : List Char} {before own after : List (List Char)} {line : LogicalLine}

/-- A physical line in front, with which the logical line has nothing to do. -/
theorem IsMadeOf.cons_before (h : IsMadeOf (n + 1) before own after line)
    (hraw : before = [] → continued? raw = none) : IsMadeOf n (raw :: before) own after line :=
  { h with
    number := by rw [h.number, List.length_cons]; omega
    begins := h.begins.cons hraw }

/-- A physical line in front that goes on in the logical line. -/
theorem IsMadeOf.cons_own (h : IsMadeOf (n + 1) [] own after line) {body : List Char}
    (hraw : continued? raw = some body) :
    IsMadeOf n [] (raw :: own) after ⟨n, body ++ line.text⟩ where
  ne_nil := List.cons_ne_nil _ _
  number := rfl
  text := by rw [List.flatMap_cons, uncontinued, hraw, h.text]; rfl
  begins := nofun
  continues := by
    rw [List.dropLast_cons_of_ne_nil h.ne_nil]
    exact List.forall_mem_cons.2 ⟨by rw [hraw]; rfl, h.continues⟩
  ends := h.ends.imp_left fun hown => hown.cons fun hnil => absurd hnil h.ne_nil

/-- A logical line of one physical line. -/
theorem isMadeOf_singleton (hraw : continued? raw = none ∨ after = []) :
    IsMadeOf n [] [raw] after ⟨n, uncontinued raw⟩ where
  ne_nil := List.cons_ne_nil _ _
  number := rfl
  text := (List.append_nil _).symm
  begins := nofun
  continues := nofun
  ends := hraw.imp_left fun hnone => NotContinued.cons nofun fun _ => hnone

end

/-- **Each logical line is made up of the physical lines that its number says.** -/
theorem exists_isMadeOf {n : Nat} {raws : List (List Char)} :
    ∀ line ∈ splice n raws, ∃ before own after, raws = before ++ (own ++ after) ∧
      line.IsMadeOf n before own after := by
  induction raws generalizing n with
  | nil => exact nofun
  | cons raw raws ih =>
    intro line hline
    rcases splice_cons n raw raws with ⟨hraw, hsplice⟩ | ⟨body, hraw, rfl, hsplice⟩ |
      ⟨body, next, lines, hraw, hnext, hsplice⟩
    · rw [hsplice] at hline
      rcases List.mem_cons.1 hline with rfl | hline
      · have hone : IsMadeOf n [] [raw] raws ⟨n, uncontinued raw⟩ := isMadeOf_singleton (.inl hraw)
        rw [uncontinued, hraw] at hone
        exact ⟨[], [raw], raws, rfl, hone⟩
      · obtain ⟨before, own, after, rfl, hmade⟩ := ih line hline
        exact ⟨raw :: before, own, after, rfl, hmade.cons_before fun _ => hraw⟩
    · rw [hsplice, List.mem_singleton] at hline
      have hone : IsMadeOf n [] [raw] [] ⟨n, uncontinued raw⟩ := isMadeOf_singleton (.inr rfl)
      rw [uncontinued, hraw] at hone
      exact ⟨[], [raw], [], rfl, hline ▸ hone⟩
    · have hnumber := number_of_splice_eq_cons hnext
      rw [hsplice] at hline
      rcases List.mem_cons.1 hline with rfl | hline
      · obtain ⟨before, own, after, rfl, hmade⟩ := ih next (hnext ▸ List.mem_cons_self ..)
        have hbefore : before = [] := by
          have hlength := hmade.number
          rw [hnumber] at hlength
          exact List.length_eq_zero_iff.1 (by omega)
        subst hbefore
        exact ⟨[], raw :: own, after, rfl, hmade.cons_own hraw⟩
      · obtain ⟨before, own, after, rfl, hmade⟩ := ih line (hnext ▸ List.mem_cons_of_mem next hline)
        have hgrow := pairwise_number (n + 1) (before ++ (own ++ after))
        rw [hnext] at hgrow
        have hlater : next.number < line.number := (List.pairwise_cons.1 hgrow).1 line hline
        refine ⟨raw :: before, own, after, rfl, hmade.cons_before ?_⟩
        -- The line that goes on in `next` is not the last one in front of a later line.
        rintro rfl
        rw [hmade.number, hnumber] at hlater
        exact absurd hlater (Nat.lt_irrefl _)

end LogicalLine

/-! ## Runs of a file -/

variable {σ : Type}

/-- The diagnostics that have been added from one session to another. -/
def Session.added (s s' : Session σ) : List Diagnostic :=
  s'.diagnostics.toList.drop s.diagnostics.size

theorem Session.added_eq {s s' : Session σ} {more : List Diagnostic}
    (h : s'.diagnostics.toList = s.diagnostics.toList ++ more) : s.added s' = more := by
  rw [added, h, ← Array.length_toList, List.drop_left]

theorem Session.Extends.diagnostics_eq {s s' : Session σ} (h : s.Extends s') :
    s'.diagnostics.toList = s.diagnostics.toList ++ s.added s' := by
  obtain ⟨more, hmore⟩ := h
  rw [added_eq hmore.symm, hmore]

/-- A logical line of a file, and where the reading of the file stands before it. -/
structure Place (σ : Type) where
  line : LogicalLine
  state : FileState σ

/-- The line without its comments. -/
def Place.stripped (p : Place σ) : Line :=
  Line.classify (stripComments p.state.inBlock p.line.text).1

/-- A run of a file: how many includes may still be nested in it, the name of the file and its text,
and the session in which it begins. -/
structure Invocation (σ : Type) where
  depth : Nat
  file : String
  text : List Char
  session : Session σ

namespace Invocation

variable (h : Include.Handler σ) (i : Invocation σ)

/-- The session in which it ends. -/
def result : Session σ := runFile h i.depth i.file i.text i.session

/-- All that is reported in the course of it. -/
def added : List Diagnostic := i.session.added (i.result h)

/-- Where the reading stands behind a place. -/
def behind (p : Place σ) : FileState σ := runLine h (included h i.depth) i.file p.state p.line

/-- The places of some lines. -/
def placesFrom (st : FileState σ) : List LogicalLine → List (Place σ)
  | [] => []
  | line :: lines => ⟨line, st⟩ :: placesFrom (i.behind h ⟨line, st⟩) lines

/-- Where the reading stands before the first line. -/
def start : FileState σ := ⟨[], false, i.session⟩

/-- The places of the file. -/
def places : List (Place σ) := i.placesFrom h i.start (LogicalLine.ofText i.text)

/-- Where the reading stands behind some lines. -/
def stateFrom (st : FileState σ) (lines : List LogicalLine) : FileState σ :=
  lines.foldl (fun st line => i.behind h ⟨line, st⟩) st

/-- Where the reading stands behind the last line. -/
def stateAtEnd : FileState σ := i.stateFrom h i.start (LogicalLine.ofText i.text)

/-- The run of the file that is included at a place, if the handler has it. -/
def opened? (p : Place σ) : Option (Invocation σ) :=
  match i.depth, p.stripped.target? p.state.session.macros p.state.groups with
  | depth + 1, some (kind, name) =>
    match h.acquire p.state.session.handler ⟨kind, String.ofList name, some i.file⟩ with
    | (.ok handle, handler) =>
      some ⟨depth, String.ofList name, includedText handle,
        { p.state.session with handler := h.release handler handle }⟩
    | (.error _, _) => none
  | _, _ => none

/-- What is reported at a place by a file that is included there. -/
def others (p : Place σ) : List Diagnostic :=
  match i.opened? h p with
  | some j => j.added h
  | none => []

/-- What is reported at a place, but not by a file that is included there. -/
def own (p : Place σ) : List Diagnostic :=
  match i.opened? h p with
  | some _ => []
  | none => p.state.session.added (i.behind h p).session

/-- What is reported behind the last line. -/
def atEnd : List Diagnostic := (i.stateAtEnd h).session.added (i.result h)

/-- What the file itself reports, in the order in which it does. -/
def reports : List Diagnostic := (i.places h).flatMap (i.own h) ++ i.atEnd h

/-! ### Files that are included -/

variable {h i} {p : Place σ}

variable (h i p) in
/-- Only the line without its comments adds to the session. -/
theorem session_behind : (i.behind h p).session =
    (runStripped h (included h i.depth) i.file p.line.number p.stripped p.state).session := by
  rw [behind, runLine_eq]
  rfl

theorem extends_result : i.session.Extends (i.result h) :=
  onlyExtends_included h (i.depth + 1) _ rfl i.file i.text i.session

/-- What has been asked and answered where a file is included. -/
theorem exists_of_opened? {j : Invocation σ} (hj : i.opened? h p = some j) :
    ∃ depth kind name handle handler, i.depth = depth + 1 ∧
      p.stripped.target? p.state.session.macros p.state.groups = some (kind, name) ∧
      h.acquire p.state.session.handler ⟨kind, String.ofList name, some i.file⟩ =
        (.ok handle, handler) ∧
      j = ⟨depth, String.ofList name, includedText handle,
        { p.state.session with handler := h.release handler handle }⟩ := by
  rw [opened?] at hj
  split at hj
  · next depth kind name hdepth htarget =>
    split at hj
    · next handle handler hanswer =>
      cases hj
      exact ⟨depth, kind, name, handle, handler, hdepth, htarget, hanswer, rfl⟩
    · cases hj
  · cases hj

/-- **A line that opens a file is the run of that file**, which begins with what has been reported
before the line. -/
theorem behind_of_opened {j : Invocation σ} (hj : i.opened? h p = some j) :
    (i.behind h p).session = j.result h ∧
      j.session.diagnostics = p.state.session.diagnostics := by
  obtain ⟨depth, kind, name, handle, handler, hdepth, htarget, hanswer, rfl⟩ :=
    exists_of_opened? hj
  refine ⟨?_, rfl⟩
  rw [session_behind, hdepth]
  exact congrArg FileState.session (runStripped_some_of_opened htarget hanswer)

theorem opensFile_of_opened {j : Invocation σ} (hj : i.opened? h p = some j) :
    p.stripped.OpensFile h (included h i.depth) i.file p.state := by
  obtain ⟨depth, kind, name, handle, handler, hdepth, htarget, hanswer, -⟩ :=
    exists_of_opened? hj
  rw [hdepth]
  exact ⟨(kind, name), htarget, rfl, handle, handler, hanswer⟩

theorem not_opensFile_of_opened?_eq_none (hnone : i.opened? h p = none) :
    ¬ p.stripped.OpensFile h (included h i.depth) i.file p.state := by
  rintro ⟨⟨kind, name⟩, htarget, hnested, handle, handler, hanswer⟩
  rcases hdepth : i.depth with _ | depth
  · rw [hdepth] at hnested
    cases hnested
  · dsimp only at hanswer
    rw [opened?, hdepth, htarget] at hnone
    dsimp only at hnone
    rw [hanswer] at hnone
    cases hnone

/-! ### What the file reports itself -/

/-- **At each place one fault is reported at most**, at the number of the line. -/
theorem own_eq : i.own h p =
    (p.stripped.fault? h (included h i.depth) i.file p.state).toList.map
      (·.at i.file p.line.number) := by
  rw [own]
  cases hopened : i.opened? h p with
  | some j => rw [(opensFile_of_opened hopened).fault?_eq_none]; rfl
  | none =>
    refine Session.added_eq ?_
    rw [session_behind]
    cases hfault : p.stripped.fault? h (included h i.depth) i.file p.state with
    | some fault =>
      obtain ⟨handler, hrun⟩ := runStripped_of_fault? hfault p.line.number
      rw [hrun]
      exact diagnostics_report _ i.file p.line.number (some fault)
    | none =>
      have hsame := (runStripped_of_fault?_eq_none hfault p.line.number).resolve_right
        (not_opensFile_of_opened?_eq_none hopened)
      rw [hsame]
      exact (List.append_nil _).symm

variable (h i) in
theorem result_eq_finish : i.result h = finish i.file (lastLine i.text) (i.stateAtEnd h) := by
  rw [result, runFile_eq_runLines]
  rfl

theorem atEnd_eq : i.atEnd h =
    (endFaults (i.stateAtEnd h).groups (i.stateAtEnd h).inBlock).map
      (·.at i.file (lastLine i.text)) := by
  refine Session.added_eq ?_
  rw [result_eq_finish, diagnostics_finish]

/-! ### Nothing else is reported -/

/-- What a line adds. -/
theorem diagnostics_behind : (i.behind h p).session.diagnostics.toList =
    p.state.session.diagnostics.toList ++ (i.own h p ++ i.others h p) := by
  cases hopened : i.opened? h p with
  | some j =>
    obtain ⟨hresult, hbefore⟩ := behind_of_opened hopened
    rw [own, others, hopened, hresult, ← hbefore]
    exact extends_result.diagnostics_eq
  | none =>
    have hextends : p.state.session.Extends (i.behind h p).session := by
      rw [session_behind]
      exact extends_runStripped (onlyExtends_included h i.depth) i.file p.line.number _ p.state
    rw [own, others, hopened]
    dsimp only
    rw [List.append_nil]
    exact hextends.diagnostics_eq

variable (h i)

/-- What some lines add. -/
theorem diagnostics_stateFrom (st : FileState σ) (lines : List LogicalLine) :
    (i.stateFrom h st lines).session.diagnostics.toList =
      st.session.diagnostics.toList ++
        (i.placesFrom h st lines).flatMap fun p => i.own h p ++ i.others h p := by
  induction lines generalizing st with
  | nil => exact (List.append_nil _).symm
  | cons line lines ih =>
    have hline : (i.behind h ⟨line, st⟩).session.diagnostics.toList = _ := diagnostics_behind
    rw [placesFrom, List.flatMap_cons, ← List.append_assoc, ← hline]
    exact ih (i.behind h ⟨line, st⟩)

theorem map_line_placesFrom (st : FileState σ) (lines : List LogicalLine) :
    (i.placesFrom h st lines).map (·.line) = lines := by
  induction lines generalizing st with
  | nil => rfl
  | cons line lines ih => exact congrArg (line :: ·) (ih (i.behind h ⟨line, st⟩))

/-- **What is added to the diagnostics** is what the file reports itself, and what files report that
it includes. -/
theorem diagnostics_result : (i.result h).diagnostics.toList =
    i.session.diagnostics.toList ++
      (((i.places h).flatMap fun p => i.own h p ++ i.others h p) ++ i.atEnd h) := by
  have hend : (i.stateAtEnd h).session.Extends (i.result h) := by
    rw [result_eq_finish]
    exact extends_finish i.file (lastLine i.text) _ _
  rw [hend.diagnostics_eq, stateAtEnd, diagnostics_stateFrom, List.append_assoc]
  rfl

/-! ### Order -/

/-- What an invocation reports itself is about its file, and in order. -/
structure ReportsInOrder : Prop where
  /-- Nothing is added but what the file reports, and what files report that are included. -/
  account : (i.result h).diagnostics.toList = i.session.diagnostics.toList ++
    (((i.places h).flatMap fun p => i.own h p ++ i.others h p) ++ i.atEnd h)
  /-- A place at which a file is included is a run of that file, whose reports are its own. -/
  others : ∀ p ∈ i.places h, ∀ j, i.opened? h p = some j →
    (i.behind h p).session = j.result h ∧ j.session.diagnostics = p.state.session.diagnostics
  file : ∀ d ∈ i.reports h, d.file = some i.file
  ordered : (i.reports h).Pairwise (·.position ≤ ·.position)
  bounded : ∀ d ∈ i.reports h,
    1 ≤ d.position ∧ d.position ≤ max 1 (Text.physicalLines i.text).length
  lines : (i.places h).map (·.line) = LogicalLine.ofText i.text
  /-- A line is reported once at most, -/
  atMostOne : ∀ p ∈ i.places h, (i.own h p).length ≤ 1
  /-- at the first of the physical lines that make it up. -/
  atFirstLine : ∀ p ∈ i.places h, ∀ d ∈ i.own h p, ∃ before own after,
    Text.physicalLines i.text = before ++ (own ++ after) ∧ p.line.IsMadeOf 1 before own after ∧
      d.position = before.length + 1
  atLastLine : (i.atEnd h).Sublist
    [⟨some i.file, max 1 (Text.physicalLines i.text).length, "Unterminated comment"⟩,
      ⟨some i.file, max 1 (Text.physicalLines i.text).length, "Unterminated #if"⟩]

variable {h i}

/-- A position that fits in a word is not cut down. -/
theorem position_at {n : Nat} (hn : n < 2 ^ 32) (fault : Fault) (file : String) :
    (fault.at file n).position = n :=
  Nat.min_eq_left (Nat.le_of_lt_succ hn)

theorem sublist_endFaults (groups : List Group) (inBlock : Bool) :
    (endFaults groups inBlock).Sublist [.unterminatedComment, .unterminatedIf] := by
  rw [endFaults]
  split <;> split <;> simp

theorem length_own_le (p : Place σ) : (i.own h p).length ≤ 1 := by
  rw [own_eq, List.length_map]
  exact Option.length_toList_le

theorem line_mem_of_mem_places {p : Place σ} (hp : p ∈ i.places h) :
    p.line ∈ LogicalLine.ofText i.text := by
  have hmem := List.mem_map_of_mem (f := (·.line)) hp
  rwa [places, map_line_placesFrom] at hmem

section

variable (hshort : (Text.physicalLines i.text).length < 2 ^ 32)

include hshort

theorem of_mem_own {p : Place σ} (hp : p ∈ i.places h) {d : Diagnostic}
    (hd : d ∈ i.own h p) : d.file = some i.file ∧ d.position = p.line.number ∧
      ∃ before own after, Text.physicalLines i.text = before ++ (own ++ after) ∧
        p.line.IsMadeOf 1 before own after := by
  obtain ⟨before, own, after, hsplit, hmade⟩ :=
    LogicalLine.exists_isMadeOf p.line (line_mem_of_mem_places hp)
  have hnumber : p.line.number < 2 ^ 32 := by
    have hlength := congrArg List.length hsplit
    have hown := List.length_pos_of_ne_nil hmade.ne_nil
    rw [List.length_append, List.length_append] at hlength
    rw [hmade.number]
    omega
  rw [own_eq] at hd
  obtain ⟨fault, -, rfl⟩ := List.mem_map.1 hd
  exact ⟨rfl, position_at hnumber fault i.file, before, own, after, hsplit, hmade⟩

theorem sublist_atEnd : (i.atEnd h).Sublist
    [⟨some i.file, max 1 (Text.physicalLines i.text).length, "Unterminated comment"⟩,
      ⟨some i.file, max 1 (Text.physicalLines i.text).length, "Unterminated #if"⟩] := by
  have hlast : lastLine i.text < 2 ^ 32 := by
    rw [lastLine]
    omega
  have hfault (fault : Fault) : fault.at i.file (lastLine i.text) =
      ⟨some i.file, max 1 (Text.physicalLines i.text).length, fault.message⟩ :=
    congrArg (Diagnostic.mk _ · _) (position_at hlast fault i.file)
  have hends := (sublist_endFaults (i.stateAtEnd h).groups (i.stateAtEnd h).inBlock).map
    (·.at i.file (lastLine i.text))
  rw [← atEnd_eq, List.map_cons, List.map_cons, hfault, hfault] at hends
  exact hends

theorem of_mem_atEnd {d : Diagnostic} (hd : d ∈ i.atEnd h) :
    d.file = some i.file ∧ d.position = max 1 (Text.physicalLines i.text).length := by
  rcases List.mem_pair.1 ((sublist_atEnd hshort).subset hd) with rfl | rfl
  · exact ⟨rfl, rfl⟩
  · exact ⟨rfl, rfl⟩

theorem of_mem_reports {d : Diagnostic} (hd : d ∈ i.reports h) : d.file = some i.file ∧
    1 ≤ d.position ∧ d.position ≤ max 1 (Text.physicalLines i.text).length := by
  rcases List.mem_append.1 hd with hd | hd
  · obtain ⟨p, hp, hd⟩ := List.mem_flatMap.1 hd
    obtain ⟨hfile, hposition, before, own, after, hsplit, hmade⟩ := of_mem_own hshort hp hd
    have hlength := congrArg List.length hsplit
    have hown := List.length_pos_of_ne_nil hmade.ne_nil
    rw [List.length_append, List.length_append] at hlength
    rw [hposition, hmade.number]
    exact ⟨hfile, by omega, by omega⟩
  · obtain ⟨hfile, hposition⟩ := of_mem_atEnd hshort hd
    exact ⟨hfile, by omega, by omega⟩

/-- **Positions do not go back.**  The numbers of the lines grow, and the end of the file comes
last. -/
theorem pairwise_reports : (i.reports h).Pairwise (·.position ≤ ·.position) := by
  have hgrow : (i.places h).Pairwise fun p q => p.line.number < q.line.number := by
    have hnumbers := LogicalLine.pairwise_number 1 (Text.physicalLines i.text)
    rw [← LogicalLine.ofText, ← map_line_placesFrom h i i.start (LogicalLine.ofText i.text),
      List.pairwise_map] at hnumbers
    exact hnumbers
  have hlines : ((i.places h).flatMap (i.own h)).Pairwise (·.position ≤ ·.position) := by
    refine List.pairwise_flatMap.2 ⟨fun p hp => ?_, hgrow.imp_of_mem ?_⟩
    · exact List.pairwise_of_forall_mem_list fun d hd e he => Nat.le_of_eq
        ((of_mem_own hshort hp hd).2.1.trans (of_mem_own hshort hp he).2.1.symm)
    · intro p q hp hq hlt d hd e he
      rw [(of_mem_own hshort hp hd).2.1, (of_mem_own hshort hq he).2.1]
      exact Nat.le_of_lt hlt
  have hend : (i.atEnd h).Pairwise (·.position ≤ ·.position) :=
    List.pairwise_of_forall_mem_list fun d hd e he =>
      Nat.le_of_eq ((of_mem_atEnd hshort hd).2.trans (of_mem_atEnd hshort he).2.symm)
  refine List.pairwise_append.2 ⟨hlines, hend, fun d hd e he => ?_⟩
  rw [(of_mem_atEnd hshort he).2]
  exact (of_mem_reports hshort (List.mem_append_left _ hd)).2.2

end

/-- **What a file reports names the file and is in order**, whatever it includes and wherever it is
included itself. -/
theorem reportsInOrder (h : Include.Handler σ) (i : Invocation σ)
    (hshort : (Text.physicalLines i.text).length < 2 ^ 32) : ReportsInOrder h i where
  account := diagnostics_result h i
  others p _ j hj := behind_of_opened hj
  file d hd := (of_mem_reports hshort hd).1
  ordered := pairwise_reports hshort
  bounded d hd := (of_mem_reports hshort hd).2
  lines := map_line_placesFrom h i _ _
  atMostOne p _ := length_own_le p
  atFirstLine p hp d hd := by
    obtain ⟨-, hposition, before, own, after, hsplit, hmade⟩ := of_mem_own hshort hp hd
    exact ⟨before, own, after, hsplit, hmade, by rw [hposition, hmade.number, Nat.add_comm]⟩
  atLastLine := sublist_atEnd hshort

/-- A handler that has one text for all files, a directive that nobody knows. -/
def unknownHandler : Include.Handler Unit where
  acquire _ request := (.ok ⟨request.name, Utf8.encode "#c".toList⟩, ())
  release _ _ := ()

/-- A file whose first directive takes up two lines and is at fault, and whose second one includes
a file.  A group and a comment are open at its end. -/
def openEnd : Invocation Unit where
  depth := 1
  file := "main"
  text := "#a\\\nb\n#include <t>\n#ifdef A\n/*".toList
  session := { macros := {}, output := #[], diagnostics := #[], handler := () }

theorem reportsInOrder_openEnd :
    (Text.physicalLines openEnd.text).length < 2 ^ 32 ∧
      ReportsInOrder unknownHandler openEnd ∧
      (openEnd.reports unknownHandler).map (·.position) = [1, 5, 5] ∧
      (openEnd.result unknownHandler).diagnostics.toList.map (fun d => (d.file, d.position)) =
        [(some "main", 1), (some "t", 1), (some "main", 5), (some "main", 5)] := by
  have hshort : (Text.physicalLines openEnd.text).length < 2 ^ 32 := by decide
  exact ⟨hshort, reportsInOrder unknownHandler openEnd hshort, by decide +kernel,
    by decide +kernel⟩

end Invocation

end Preprocess
end ShaderKit
