import ShaderKit.Proofs.CommentScan
import ShaderKit.Proofs.LoweredSource
import ShaderKit.Proofs.Trimming

/-!
# Defining a macro from outside

A macro can be defined before a run begins, or by a line of the source.  The two are written alike
and read in ways of their own: a definition from outside replaces another one and its value is cut
into tokens as it is, while a line is spliced, stripped of comments, taken for a directive and for a
macro with or without parameters, and may not change what a name means.

It comes to the same if the name is new and the value is one that a line can have (`IsWritable`).
Then a `#define` on a new first line does what the definition does, as its first step shows
(`step_start`), and from there on the runs differ in line numbers only
(`preprocessedLower_definingText`): what the source itself reports is one line lower.
-/

set_option autoImplicit false

namespace ShaderKit
namespace Preprocess

/-! ## A line that defines a macro -/

/-- The line that defines a macro as a text. -/
def definingLine (name value : List Char) : List Char :=
  ['#', 'd', 'e', 'f', 'i', 'n', 'e', ' '] ++ (name ++ ' ' :: value)

/-- What a line can define as a macro without parameters, so that it gets this very name and value.
-/
structure IsWritable (name value : List Char) : Prop where
  isWord : isWord name = true
  ne_defined : name ≠ "defined".toList
  oneLine : '\n' ∉ value
  trimmed : Text.trim value = value
  notContinued : value.getLast? ≠ some '\\'
  uncommented : (stripComments false value).1 = value

namespace IsWritable

variable {name value : List Char} (hd : IsWritable name value)

include hd

theorem all_isWordChar : ∀ c ∈ name, isWordChar c = true := isWordChar_of_mem_word hd.isWord

theorem isBlank_of_mem {c : Char} (hc : c ∈ name) : Text.isBlank c = false :=
  isBlank_of_isWordChar (hd.all_isWordChar c hc)

theorem name_ne_nil : name ≠ [] := by
  rintro rfl
  exact absurd hd.isWord (by simp [Preprocess.isWord])

theorem not_mem_definingLine : '\n' ∉ definingLine name value := by
  have hname : '\n' ∉ name := fun hmem =>
    absurd (hd.all_isWordChar _ hmem) (by decide)
  simp [definingLine, hname, hd.oneLine]

theorem continued?_definingLine : LogicalLine.continued? (definingLine name value) = none := by
  cases hbody : LogicalLine.continued? (definingLine name value) with
  | none => rfl
  | some body =>
    have hlast := congrArg List.getLast? (LogicalLine.continued?_eq_some_iff.1 hbody)
    rw [List.getLast?_concat] at hlast
    cases hvalue : value.getLast? with
    | none =>
      simp [definingLine, List.getLast?_append, List.getLast?_cons, hvalue] at hlast
    | some c =>
      refine absurd ?_ hd.notContinued
      simpa [definingLine, List.getLast?_append, List.getLast?_cons, hvalue] using hlast

theorem stripComments_definingLine :
    stripComments false (definingLine name value) = (definingLine name value, false) := by
  have hword : ['#', 'd', 'e', 'f', 'i', 'n', 'e', ' '].all
      (fun c => decide (c ≠ '/' ∧ isQuote c = false)) = true := by decide
  have hfront : ∀ c ∈ ['#', 'd', 'e', 'f', 'i', 'n', 'e', ' '] ++ (name ++ [' ']),
      c ≠ '/' ∧ isQuote c = false := by
    intro c hc
    rw [List.mem_append, List.mem_append] at hc
    rcases hc with hc | hc | hc
    · exact of_decide_eq_true (List.all_eq_true.1 hword c hc)
    · exact notMark_of_isWord hd.isWord c hc
    · rw [List.mem_singleton.1 hc]
      decide
  have hline : definingLine name value =
      ['#', 'd', 'e', 'f', 'i', 'n', 'e', ' '] ++ (name ++ [' ']) ++ value := by
    simp [definingLine]
  refine stripComments_of_scan ?_
  rw [hline, scan_code_append hfront, scan_of_stripComments hd.uncommented]

theorem trim_arguments : Text.trim (' ' :: (name ++ ' ' :: value)) =
    name ++ if value = [] then [] else ' ' :: value := by
  have hblank : Text.isBlank ' ' = true := by decide
  have hstart : Text.trimStart (' ' :: (name ++ ' ' :: value)) = name ++ ' ' :: value := by
    obtain ⟨c, rest, hname⟩ := List.exists_cons_of_ne_nil hd.name_ne_nil
    have hc : Text.isBlank c = false := hd.isBlank_of_mem (by simp [hname])
    rw [Text.trimStart_cons_of_blank hblank, hname, List.cons_append, Text.trimStart_cons_of_not hc]
  rw [Text.trim, hstart]
  rcases List.eq_nil_or_concat value with rfl | ⟨s, c, hvalue⟩
  · obtain ⟨s, c, hname⟩ := (List.eq_nil_or_concat name).resolve_left hd.name_ne_nil
    rw [List.concat_eq_append] at hname
    have hc : Text.isBlank c = false := hd.isBlank_of_mem (by simp [hname])
    rw [Text.trimEnd_concat_of_blank hblank, if_pos rfl, List.append_nil, hname,
      Text.trimEnd_concat_of_not hc]
  · rw [List.concat_eq_append] at hvalue
    have htrimmed := hd.trimmed
    rw [hvalue] at htrimmed
    have hc := Text.isBlank_of_trim_concat htrimmed
    rw [if_neg (by simp [hvalue]), hvalue, ← List.cons_append, ← List.append_assoc,
      Text.trimEnd_concat_of_not hc]

theorem classify_definingLine : Line.classify (definingLine name value) =
    .action (.define (name ++ if value = [] then [] else ' ' :: value)) := by
  change Line.ofDirective ['d', 'e', 'f', 'i', 'n', 'e'] (Text.trim (' ' :: (name ++ ' ' :: value)))
    (definingLine name value) = _
  rw [hd.trim_arguments]
  rfl

theorem object_cons : Macro.object (' ' :: value) = Macro.object value := by
  have hextent : extent ' ' value = (.space, 0) := by
    have hnone : value.takeWhile Text.isBlank = [] := by
      cases hvalue : value with
      | nil => rfl
      | cons c s =>
        have htrimmed := hd.trimmed
        rw [hvalue] at htrimmed
        rw [List.takeWhile_cons_of_neg (by simp [Text.isBlank_of_trim_cons htrimmed])]
    rw [extent, if_pos (by decide), hnone]
    rfl
  rw [Macro.object, tokenizeTrimmed, tokenize_cons, hextent]
  rfl

theorem definition_arguments :
    definition (name ++ if value = [] then [] else ' ' :: value) =
      .ok (name, Macro.object value) := by
  have htake : (name ++ if value = [] then [] else ' ' :: value).takeWhile isWordChar = name := by
    rw [List.takeWhile_append_of_pos hd.all_isWordChar]
    split <;> simp [isWordChar]
  have hdrop : (name ++ if value = [] then [] else ' ' :: value).dropWhile isWordChar =
      if value = [] then [] else ' ' :: value := by
    rw [List.dropWhile_append_of_pos hd.all_isWordChar]
    split <;> simp [isWordChar]
  have hword : ¬((!Preprocess.isWord name) = true) := by simp [hd.isWord]
  rw [definition]
  simp only [htake, hdrop, if_neg hword, if_neg hd.ne_defined]
  split_ifs with hvalue
  · rw [hvalue]
    rfl
  · rw [← hd.object_cons]
    rfl

/-- **The line defines the macro**, unless its name has a meaning already, and does nothing else. -/
theorem runLine_definingLine {σ : Type} (h : Include.Handler σ) (file : String) (number : Nat)
    (s : Session σ) (hnew : s.macros.get? name = none) :
    runLine h none file ⟨[], false, s⟩ ⟨number, definingLine name value⟩ =
      ⟨[], false, { s with macros := s.macros.insert name (.object value) }⟩ := by
  have hdefine : s.macros.define? name (.object value) =
      some (s.macros.insert name (.object value)) := by
    rw [MacroTable.define?, hnew]
  rw [runLine_eq]
  dsimp only
  rw [hd.stripComments_definingLine, hd.classify_definingLine, runStripped_action,
    if_pos (show Group.keeps [] = true from rfl), runAction, hd.definition_arguments]
  simp only [bind, Except.bind, hdefine]
  rfl

end IsWritable

/-! ## Definitions from outside -/

theorem predefine_concat (ds : List Definition) (d : Definition) :
    predefine (ds ++ [d]) = (predefine ds).insert d.name.toList (.object d.value.toList) := by
  rw [predefine, List.foldl_append]
  rfl

theorem get?_predefine_of_not_mem {ds : List Definition} {name : String}
    (h : name ∉ ds.map (·.name)) : (predefine ds).get? name.toList = none := by
  induction ds using List.reverseRecOn with
  | nil => rfl
  | append_singleton ds d ih =>
    rw [List.map_append, List.mem_append, not_or] at h
    have hne : name.toList ≠ d.name.toList := fun heq => h.2 (by simp [String.toList_inj.1 heq])
    rw [predefine_concat, MacroTable.get?_insert, if_neg hne, ih h.1]

/-- The line that defines a macro, ended. -/
def definingText (d : Definition) : String := "#define " ++ d.name ++ " " ++ d.value ++ "\n"

theorem toList_definingText_append (d : Definition) (text : String) :
    (definingText d ++ text).toList =
      definingLine d.name.toList d.value.toList ++ '\n' :: text.toList := by
  simp [definingText, definingLine, String.toList_append]

section

variable {σ : Type} {filename text : String} {ds : List Definition} {d : Definition}
  (hd : IsWritable d.name.toList d.value.toList)

include hd

theorem lines_start : (PendingFile.start filename (definingText d ++ text).toList).lines =
    ⟨1, definingLine d.name.toList d.value.toList⟩ ::
      (LogicalLine.ofText text.toList).map (.lower 1) := by
  change LogicalLine.ofText (definingText d ++ text).toList = _
  rw [toList_definingText_append, LogicalLine.ofText, Text.physicalLines_append_newline,
    Text.physicalLines_line hd.not_mem_definingLine, List.singleton_append,
    LogicalLine.splice_cons_of_none hd.continued?_definingLine, LogicalLine.splice_add]
  rfl

theorem lastLine_definingText (htext : text.toList ≠ []) :
    lastLine (definingText d ++ text).toList = lastLine text.toList + 1 := by
  have hlines := List.length_pos_iff.2 (Text.physicalLines_ne_nil htext)
  rw [toList_definingText_append, lastLine, lastLine, Text.physicalLines_append_newline,
    Text.physicalLines_line hd.not_mem_definingLine, List.length_append, List.length_singleton]
  omega

/-- Behind the line, the lines of the source are still to come, one line lower. -/
theorem lowered_start : (PendingFile.start filename text.toList).Lowered 1
    ((PendingFile.start filename (definingText d ++ text).toList).passed
      ⟨1, definingLine d.name.toList d.value.toList⟩
      ((LogicalLine.ofText text.toList).map (.lower 1)) []) := by
  constructor
  · rfl
  · rfl
  · rfl
  · change (stripComments false (definingLine d.name.toList d.value.toList)).2 = false
    rw [hd.stripComments_definingLine]
  · by_cases htext : text.toList = []
    · -- nothing can be reported at the end of an empty text, whatever its last line is
      refine .inr ⟨?_, rfl⟩
      rw [PendingFile.start, htext]
      rfl
    · exact .inl (lastLine_definingText hd htext)

theorem asked?_start (maxDepth : Nat) (macros : MacroTable) :
    IncludeRun.asked? maxDepth (.start filename (definingText d ++ text).toList) []
      ⟨1, definingLine d.name.toList d.value.toList⟩ macros = none := by
  rw [IncludeRun.asked?]
  split
  · change (Line.classify (stripComments false (definingLine _ _)).1).target? macros [] = none
    rw [hd.stripComments_definingLine, hd.classify_definingLine]
    rfl
  · rfl

variable (filename text)

/-- The first step of the source with the line: its macro is defined, and nothing is reported. -/
theorem step_start (h : Include.Handler σ) (maxDepth : Nat) (hnew : d.name ∉ ds.map (·.name))
    (handler : σ) :
    IncludeRun.step h maxDepth (.start ⟨filename, definingText d ++ text, ds⟩ handler) =
      ⟨[(PendingFile.start filename (definingText d ++ text).toList).passed
          ⟨1, definingLine d.name.toList d.value.toList⟩
          ((LogicalLine.ofText text.toList).map (.lower 1)) []],
        ⟨predefine (ds ++ [d]), #[], #[], handler⟩, []⟩ := by
  have hline : runLine h none filename ⟨[], false, ⟨predefine ds, #[], #[], handler⟩⟩
      ⟨1, definingLine d.name.toList d.value.toList⟩ =
        ⟨[], false, ⟨predefine (ds ++ [d]), #[], #[], handler⟩⟩ := by
    rw [predefine_concat]
    exact hd.runLine_definingLine h filename 1 _ (get?_predefine_of_not_mem hnew)
  have hstep : IncludeRun.step h maxDepth (.start ⟨filename, definingText d ++ text, ds⟩ handler) =
      _ := (IncludeRun.Stepped.passed (lines_start hd) (asked?_start hd maxDepth _)).step_eq
  rw [hstep]
  change IncludeRun.mk [PendingFile.passed _ _ _ (runLine h none filename
    ⟨[], false, ⟨predefine ds, #[], #[], handler⟩⟩ _).groups] (runLine h none filename
    ⟨[], false, ⟨predefine ds, #[], #[], handler⟩⟩ _).session [] = _
  rw [hline]

/-- **A definition from outside does what a `#define` on a new first line does.**  The two runs have
the same output, make the same calls and report the same, but what the source itself reports is one
line lower in the second. -/
theorem preprocessedLower_definingText (h : Include.Handler σ) (maxDepth : Nat)
    (hnew : d.name ∉ ds.map (·.name)) (handler : σ) :
    PreprocessedLower h maxDepth ⟨filename, text, ds ++ [d]⟩
      ⟨filename, definingText d ++ text, ds⟩ handler := by
  have hstep := step_start filename text hd h maxDepth hnew handler
  refine preprocessedLower_of_lowered ?_ ?_
  · rw [hstep]
    exact ⟨.cons (lowered_start hd) .nil, ⟨rfl, rfl, rfl⟩, rfl⟩
  · rw [IncludeRun.raised, hstep]
    rfl

end

/-- A source that includes itself, and reports something at either depth. -/
def selfIncluding : String := "#include \"main\"\n#error N\n"

/-- A handler that answers every request with `selfIncluding`, and counts the requests. -/
def selfHandler : Include.Handler Nat where
  acquire n request := (.ok ⟨request.name, Utf8.encode selfIncluding.toList⟩, n + 1)
  release n _ := n

/-- A value in parentheses looks like parameters, and a comment in a literal is none. -/
def parenthesized : Definition := ⟨"N", "(M) \"//\""⟩

theorem preprocessedLower_selfIncluding :
    IsWritable parenthesized.name.toList parenthesized.value.toList ∧
      parenthesized.name ∉ [Definition.mk "M" "2"].map (·.name) ∧
      PreprocessedLower selfHandler 2 ⟨"main", selfIncluding, [⟨"M", "2"⟩] ++ [parenthesized]⟩
        ⟨"main", definingText parenthesized ++ selfIncluding, [⟨"M", "2"⟩]⟩ 0 := by
  have hwritable : IsWritable parenthesized.name.toList parenthesized.value.toList :=
    ⟨by decide, by decide, by decide, by decide, by decide, by decide⟩
  have hnew : parenthesized.name ∉ [Definition.mk "M" "2"].map (·.name) := by decide
  exact ⟨hwritable, hnew,
    preprocessedLower_definingText "main" selfIncluding hwritable selfHandler 2 hnew 0⟩

end Preprocess
end ShaderKit
