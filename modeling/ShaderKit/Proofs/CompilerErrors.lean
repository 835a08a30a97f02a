import ShaderKit.CompilerLog
import ShaderKit.Proofs.TextSeams
import ShaderKit.Proofs.Trimming

/-!
# Errors in the log of a compiler

A compiler writes each error on a line of its own, and between the errors it may leave lines empty
and count what it has found (`LogLine`).  A log is read back to the errors that were written
(`diagnostics_log`): the first two colons of a line are not the message's, and so the message may
hold whatever it likes.

There is one exception.  The count is known by the last word of its line, and an error whose message
ends with that word is taken for a count (`ToldError.IsLost`).  A log of one such error is read as a
log without errors (`generatedError_unread`).
-/

set_option autoImplicit false

namespace ShaderKit
namespace CompilerLog

/-! ## Numbers -/

theorem isBlank_of_isDigit {c : Char} (h : c.isDigit = true) : Text.isBlank c = false :=
  Preprocess.isBlank_of_isWordChar (Preprocess.isWordChar_of_isDigit h)

theorem isDigit_of_mem_toDigits {c : Char} {n : Nat} (h : c ∈ Nat.toDigits 10 n) :
    c.isDigit = true :=
  Nat.isDigit_of_mem_toDigits (by decide) (by decide) h

theorem not_mem_toDigits {c : Char} (hc : c.isDigit = false) (n : Nat) :
    c ∉ Nat.toDigits 10 n := fun h => by
  rw [isDigit_of_mem_toDigits h] at hc
  cases hc

/-- A number is read as it is written. -/
theorem wordValue?_toDigits {n : Nat} (h : n ≤ Diagnostic.lastPosition) :
    wordValue? (Nat.toDigits 10 n) = some n := by
  have hdigits : ∀ c ∈ Nat.toDigits 10 n, c.isDigit = true := fun c => isDigit_of_mem_toDigits
  have hsign : '+' ∉ Nat.toDigits 10 n := not_mem_toDigits (by decide) n
  have hvalue : (Nat.toDigits 10 n).foldl (fun n c => n * 10 + (c.toNat - '0'.toNat)) 0 = n := by
    have hread : Nat.ofDigitChars 10 (Nat.toDigits 10 n) 0 = n :=
      Nat.ofDigitChars_toDigits (by decide) (by decide)
    simpa only [Nat.ofDigitChars, Nat.mul_comm] using hread
  obtain ⟨c, rest, hcons⟩ := List.exists_cons_of_ne_nil (Nat.toDigits_ne_nil (n := n) (b := 10))
  rw [hcons] at hdigits hsign hvalue ⊢
  have hproper : ((c :: rest).isEmpty || !(c :: rest).all Char.isDigit) = false := by
    rw [List.all_eq_true.2 hdigits]
    rfl
  rw [wordValue?, hproper]
  · simp only [hvalue]
    exact if_pos h
  · intro digits hplus
    exact hsign (hplus ▸ List.mem_cons_self ..)

/-! ## Lines -/

/-- What is told by a line, if anything is. -/
def ofRawLine? (line : List Char) : Option Diagnostic :=
  if (Text.trim line).isEmpty || isSummary (Text.trim line) then none
  else some (ofLine (Text.trim line))

theorem diagnostics_eq (text : List Char) :
    diagnostics text = (Text.physicalLines text).filterMap ofRawLine? := by
  rw [diagnostics, List.filterMap_map]
  rfl

/-- Lines are read one after the other. -/
theorem diagnostics_line_append {line : List Char} (h : '\n' ∉ line) (rest : List Char) :
    diagnostics (line ++ '\n' :: rest) = (ofRawLine? line).toList ++ diagnostics rest := by
  rw [diagnostics_eq, diagnostics_eq, Text.physicalLines_append_newline, Text.physicalLines_line h,
    List.filterMap_append, List.filterMap_cons]
  cases ofRawLine? line <;> rfl

/-- It does not matter whether the last line is ended. -/
theorem diagnostics_append_newline (text : List Char) :
    diagnostics (text ++ ['\n']) = diagnostics text := by
  rw [diagnostics_eq, diagnostics_eq]
  rcases List.eq_nil_or_concat text with rfl | ⟨body, c, rfl⟩
  · rfl
  · rw [List.concat_eq_append]
    by_cases hc : c = '\n'
    · subst hc
      rw [Text.physicalLines_append (Or.inr ⟨body, rfl⟩), List.filterMap_append]
      exact List.append_nil _
    · rw [Text.physicalLines_append_last hc]

/-! ## What a compiler writes -/

/-- An error that a compiler tells.  There is no colon in the name of the file, no blank in front of
it, and none around the message. -/
structure ToldError where
  file : String
  position : Nat
  message : String
  colon_not_mem_file : ':' ∉ file.toList
  newline_not_mem_file : '\n' ∉ file.toList
  file_first : file.toList.head?.any Text.isBlank = false
  position_le : position ≤ Diagnostic.lastPosition
  newline_not_mem_message : '\n' ∉ message.toList
  message_first : message.toList.head?.any Text.isBlank = false
  message_last : message.toList.getLast?.any Text.isBlank = false

namespace ToldError

/-- The line that is written. -/
def line (e : ToldError) : String :=
  e.file ++ ":" ++ toString e.position ++ ": error: " ++ e.message

/-- The diagnostic that is meant. -/
def diagnostic (e : ToldError) : Diagnostic := ⟨some e.file, e.position, e.message⟩

/-- The message ends with the word that counts of errors end with. -/
def IsLost (e : ToldError) : Prop := "generated.".toList <:+ e.message.toList

instance (e : ToldError) : Decidable e.IsLost := inferInstanceAs (Decidable (_ <:+ _))

end ToldError

/-- A line of a log: an error, or one of the lines that may stand between errors. -/
inductive LogLine where
  | error (e : ToldError)
  | blank (text : List Char) (isBlankText : Text.IsBlankText text) (oneLine : '\n' ∉ text)
  /-- A number of errors.  The noun has an ending, or it has not. -/
  | count (number : Nat) (ending : String) (mem : ending ∈ ["", "s", "(s)"])

namespace LogLine

/-- What is written on the line. -/
def text : LogLine → List Char
  | error e => e.line.toList
  | blank text _ _ => text
  | count number ending _ => (toString number ++ " error" ++ ending ++ " generated.").toList

/-- The error that the line tells, if it tells one. -/
def error? : LogLine → Option ToldError
  | error e => some e
  | _ => none

end LogLine

/-- The log with some lines. -/
def logText (lines : List LogLine) : List Char := lines.flatMap fun l => l.text ++ ['\n']

/-! ## Errors -/

/-- A word without the character is to be found at the end of what stands behind it, or not at
all. -/
theorem suffix_append_cons_iff {c : Char} {word : List Char} (h : c ∉ word)
    (front rest : List Char) : word <:+ front ++ c :: rest ↔ word <:+ rest := by
  have hrest : c :: rest <:+ front ++ c :: rest := List.suffix_append ..
  constructor
  · intro hword
    rcases List.suffix_or_suffix_of_suffix hword hrest with hshort | hlong
    · rcases List.suffix_cons_iff.1 hshort with rfl | hshort
      · exact absurd (List.mem_cons_self ..) h
      · exact hshort
    · exact absurd (hlong.subset (List.mem_cons_self ..)) h
  · exact fun hword => hword.trans ((List.suffix_cons c rest).trans hrest)

namespace ToldError

variable (e : ToldError)

/-- What is behind the last colon of the line that is not the message's, with no blanks at the
end. -/
def ending : List Char := Text.trimEnd (' ' :: e.message.toList)

theorem ending_cases : (e.message.toList = [] ∧ e.ending = []) ∨
    e.ending = ' ' :: e.message.toList := by
  by_cases hnone : e.message.toList = []
  · exact Or.inl ⟨hnone, by rw [ending, hnone]; rfl⟩
  · refine Or.inr (Text.trimEnd_of_last ?_)
    rw [List.getLast?_cons_of_ne_nil hnone]
    exact e.message_last

theorem trim_ending : Text.trim e.ending = e.message.toList := by
  rcases e.ending_cases with ⟨hnone, hending⟩ | hending
  · rw [hending, hnone]
    rfl
  · rw [hending, Text.trim, Text.trimStart_cons_of_blank (by decide),
      Text.trimStart_of_first e.message_first, Text.trimEnd_of_last e.message_last]

theorem suffix_ending_iff : "generated.".toList <:+ e.ending ↔ e.IsLost := by
  rcases e.ending_cases with ⟨hnone, hending⟩ | hending
  · rw [hending, IsLost, hnone]
  · rw [hending]
    exact suffix_append_cons_iff (by decide) [] _

theorem trim_line : Text.trim e.line.toList =
    e.file.toList ++ ':' :: (Nat.toDigits 10 e.position ++ ':' :: (" error".toList ++
      ':' :: e.ending)) := by
  have hline : e.line.toList = (e.file.toList ++ ':' :: (Nat.toDigits 10 e.position ++
      ':' :: " error".toList)) ++ ':' :: ' ' :: e.message.toList := by
    simp [line]
  have hstart : Text.trimStart e.line.toList = e.line.toList := by
    refine Text.trimStart_of_first ?_
    have hfirst := e.file_first
    rw [hline]
    cases hfile : e.file.toList with
    | nil => exact Eq.refl (Text.isBlank ':')
    | cons c file =>
      rw [hfile] at hfirst
      exact hfirst
  rw [Text.trim, hstart, hline, Text.trimEnd_append_cons (by decide), ending]
  simp

theorem place?_trim_line : place? (Text.trim e.line.toList) =
    some (e.file.toList, e.position, "error:".toList ++ e.ending) := by
  have hcolon : ':' ∉ Nat.toDigits 10 e.position := not_mem_toDigits (by decide) _
  have hposition : Text.trim (Nat.toDigits 10 e.position) = Nat.toDigits 10 e.position :=
    Text.trim_of_forall fun c hc => isBlank_of_isDigit (isDigit_of_mem_toDigits hc)
  have hrest : Text.trim (" error".toList ++ ':' :: e.ending) = "error:".toList ++ e.ending := by
    have hstart : Text.trimStart (" error".toList ++ ':' :: e.ending) =
        "error".toList ++ ':' :: e.ending := Text.trimStart_cons_of_blank (by decide) _
    rw [Text.trim, hstart, Text.trimEnd_append_cons (by decide), ending, Text.trimEnd_trimEnd]
    rfl
  rw [place?, trim_line, Text.cutAt?_append e.colon_not_mem_file]
  simp only [Option.bind_eq_bind, Option.bind_some, Text.cutAt?_append hcolon, hposition,
    wordValue?_toDigits e.position_le, hrest, Option.pure_def]

theorem ofLine_trim_line : ofLine (Text.trim e.line.toList) = e.diagnostic := by
  have hword : dropWord? "error:".toList ("error:".toList ++ e.ending) = some e.ending := by
    rw [dropWord?, if_pos (List.isPrefixOf_iff_prefix.2 (List.prefix_append ..)),
      List.drop_left]
  simp only [ofLine, place?_trim_line, hword, trim_ending, String.ofList_toList, diagnostic]

/-- An error is read as what is meant, unless it is taken for a count. -/
theorem ofRawLine?_line :
    ofRawLine? e.line.toList = if e.IsLost then none else some e.diagnostic := by
  have hsome : (Text.trim e.line.toList).isEmpty = false := by simp [trim_line]
  have hcount : isSummary (Text.trim e.line.toList) = decide e.IsLost := by
    have hcolon : ':' ∉ "generated.".toList := by decide
    rw [Bool.eq_iff_iff, isSummary, List.isSuffixOf_iff_suffix, decide_eq_true_iff,
      ← suffix_ending_iff, trim_line, suffix_append_cons_iff hcolon, suffix_append_cons_iff hcolon,
      suffix_append_cons_iff hcolon]
  rw [ofRawLine?, hsome, hcount, ofLine_trim_line]
  simp

theorem newline_not_mem_line : '\n' ∉ e.line.toList := by
  have hposition : '\n' ∉ Nat.toDigits 10 e.position := not_mem_toDigits (by decide) _
  simp [line, e.newline_not_mem_file, hposition, e.newline_not_mem_message]

end ToldError

/-! ## Whole logs -/

namespace LogLine

variable (l : LogLine)

theorem newline_not_mem_text : '\n' ∉ l.text := by
  cases l with
  | error e => exact e.newline_not_mem_line
  | blank text isBlankText oneLine => exact oneLine
  | count number ending mem =>
    have hnumber : '\n' ∉ Nat.toDigits 10 number := not_mem_toDigits (by decide) _
    have hending : '\n' ∉ ending.toList := by
      revert ending
      decide
    simp [text, hnumber, hending]

/-- A count is taken for one. -/
theorem ofRawLine?_count (number : Nat) {ending : String} (mem : ending ∈ ["", "s", "(s)"]) :
    ofRawLine? (count number ending mem).text = none := by
  have htext : (count number ending mem).text =
      Nat.toDigits 10 number ++ (" error" ++ ending ++ " ").toList ++ "generated.".toList := by
    simp [text]
  have hfirst : (count number ending mem).text.head?.any Text.isBlank = false := by
    obtain ⟨d, rest, hcons⟩ :=
      List.exists_cons_of_ne_nil (Nat.toDigits_ne_nil (n := number) (b := 10))
    rw [htext, hcons]
    exact isBlank_of_isDigit (isDigit_of_mem_toDigits (hcons ▸ List.mem_cons_self ..))
  have hlast : (count number ending mem).text.getLast?.any Text.isBlank = false := by
    have hpoint : "generated.".toList.getLast? = some '.' := by decide
    rw [htext, List.getLast?_append, hpoint]
    exact Eq.refl (Text.isBlank '.')
  have hsummary : isSummary (count number ending mem).text = true := by
    rw [isSummary, List.isSuffixOf_iff_suffix, htext]
    exact List.suffix_append ..
  rw [ofRawLine?, Text.trim, Text.trimStart_of_first hfirst, Text.trimEnd_of_last hlast, hsummary,
    Bool.or_true]
  rfl

/-- What is read of a line: the error that is written there, unless it is taken for a count. -/
theorem ofRawLine?_text :
    ofRawLine? l.text = (l.error?.filter fun e => ¬ e.IsLost).map ToldError.diagnostic := by
  cases l with
  | error e =>
    rw [text, e.ofRawLine?_line, error?]
    by_cases hlost : e.IsLost <;> simp [Option.filter_some, hlost]
  | blank text isBlankText oneLine =>
    have htrim : Text.trim text = [] := by
      rw [Text.trim, ← List.append_nil text, Text.trimStart_append_of_blank isBlankText]
      rfl
    simp [LogLine.text, ofRawLine?, htrim, error?]
  | count number ending mem => exact ofRawLine?_count number mem

end LogLine

/-- The errors in some lines. -/
def toldErrors (lines : List LogLine) : List ToldError := lines.filterMap LogLine.error?

/-- **A log is read back**: its diagnostics are the errors in it, in their order, but for the ones
whose message ends as a count does. -/
theorem diagnostics_log (lines : List LogLine) :
    diagnostics (logText lines) =
        ((toldErrors lines).filter fun e => ¬ e.IsLost).map ToldError.diagnostic ∧
      diagnostics (logText lines).dropLast = diagnostics (logText lines) ∧
      (diagnostics (logText lines) = (toldErrors lines).map ToldError.diagnostic ↔
        ∀ e ∈ toldErrors lines, ¬ e.IsLost) := by
  have hread : diagnostics (logText lines) =
      ((toldErrors lines).filter fun e => ¬ e.IsLost).map ToldError.diagnostic := by
    induction lines with
    | nil => rfl
    | cons l lines ih =>
      have hline := diagnostics_line_append l.newline_not_mem_text (logText lines)
      rw [logText, List.flatMap_cons, List.append_assoc, List.singleton_append, ← logText, hline,
        ih, l.ofRawLine?_text, toldErrors, toldErrors, List.filterMap_cons]
      cases l.error? with
      | none => rfl
      | some e => by_cases hlost : e.IsLost <;> simp [hlost, Option.filter]
  refine ⟨hread, ?_, ?_⟩
  · rcases List.eq_nil_or_concat lines with rfl | ⟨front, l, rfl⟩
    · rfl
    · have hlast : logText (front.concat l) = (logText front ++ l.text) ++ ['\n'] := by
        simp [logText]
      rw [hlast, List.dropLast_concat, diagnostics_append_newline]
  · rw [hread]
    constructor
    · intro h e he
      have hlength := congrArg List.length h
      rw [List.length_map, List.length_map, List.length_filter_eq_length_iff] at hlength
      simpa using hlength e he
    · intro h
      rw [List.filter_eq_self.2 fun e he => by simpa using h e he]

/-- An error whose message is much like a line, and like a count. -/
def wordyError : ToldError where
  file := "main.hlsl"
  position := 3
  message := "'b.h' : error: 2 errors generated. (no file)"
  colon_not_mem_file := by decide
  newline_not_mem_file := by decide
  file_first := by decide
  position_le := by decide
  newline_not_mem_message := by decide
  message_first := by decide
  message_last := by decide

/-- That error twice, with an empty line between, and the count. -/
def wordyLog : List LogLine :=
  [.error wordyError, .blank [' '] (by decide) (by decide), .error wordyError,
    .count 2 "s" (by decide)]

theorem diagnostics_log_wordy :
    (∀ e ∈ toldErrors wordyLog, ¬ e.IsLost) ∧
      diagnostics (logText wordyLog) = [wordyError.diagnostic, wordyError.diagnostic] := by
  have hkept : ∀ e ∈ toldErrors wordyLog, ¬ e.IsLost := by decide
  exact ⟨hkept, (diagnostics_log wordyLog).2.2.2 hkept⟩

/-- An error with a message that ends as a count does. -/
def generatedError : ToldError where
  file := "lights.hlsl"
  position := 1
  message := "'#error' : this file has to be generated."
  colon_not_mem_file := by decide
  newline_not_mem_file := by decide
  file_first := by decide
  position_le := by decide
  newline_not_mem_message := by decide
  message_first := by decide
  message_last := by decide

/-- It is the only error in the log, and no diagnostic is read. -/
theorem generatedError_unread :
    (toldErrors [.error generatedError]).map ToldError.diagnostic = [generatedError.diagnostic] ∧
      diagnostics (logText [.error generatedError]) = [] :=
  ⟨rfl, by decide⟩

end CompilerLog
end ShaderKit
