import ShaderKit.Preprocess.Comment
import ShaderKit.Text.Blank

/-!
# Where no comment is found

Taking out the comments is a scan of the line, character by character, and most of what is asked of
it is that it finds none.  A slash or a quotation mark is the only thing in the code that it stops
at, so it passes by a text with neither (`scan_code_append`); and what stands between quotation
marks is passed by whatever it is (`scan_quoted`).

A comment is never replaced by more than it takes up.  A line that breaks off inside one has become
two characters shorter at least, which the blank that is added does not make up for
(`length_scan_add_two_le`), so a line that comes out as it went in holds no comment at all
(`scan_of_stripComments`).
-/

set_option autoImplicit false

namespace ShaderKit
namespace Preprocess

/-! ## Characters that begin neither a comment nor a literal -/

/-- A class of characters with neither slashes nor quotation marks in it. -/
theorem notMark_of_class {p : Char → Bool} (hslash : p '/' = false) (hdouble : p '"' = false)
    (hsingle : p '\'' = false) {c : Char} (h : p c = true) : c ≠ '/' ∧ isQuote c = false := by
  have hne (d : Char) (hd : p d = false) : c ≠ d := by
    rintro rfl
    exact absurd h (by simp [hd])
  exact ⟨hne '/' hslash, by simp [isQuote, hne _ hdouble, hne _ hsingle]⟩

theorem notMark_of_isWordChar {c : Char} (h : isWordChar c = true) :
    c ≠ '/' ∧ isQuote c = false :=
  notMark_of_class (by decide) (by decide) (by decide) h

theorem notMark_of_isBlank {c : Char} (h : Text.isBlank c = true) :
    c ≠ '/' ∧ isQuote c = false :=
  notMark_of_class (by decide) (by decide) (by decide) h

theorem notMark_of_isWord {word : List Char} (h : isWord word = true) :
    ∀ c ∈ word, c ≠ '/' ∧ isQuote c = false :=
  fun c hc => notMark_of_isWordChar (isWordChar_of_mem_word h c hc)

/-! ## What is passed by -/

/-- A text with neither quotation marks nor slashes is passed by. -/
theorem scan_code_append {text : List Char} (h : ∀ c ∈ text, c ≠ '/' ∧ isQuote c = false)
    (rest : List Char) :
    scan .code (text ++ rest) = (text ++ (scan .code rest).1, (scan .code rest).2) := by
  induction text with
  | nil => rfl
  | cons c text ih =>
    obtain ⟨⟨hc, hq⟩, htext⟩ := List.forall_mem_cons.1 h
    rw [List.cons_append, scan, hq, if_neg Bool.false_ne_true, ih htext]
    · rfl
    · exact fun s hslash => absurd hslash hc
    · exact fun s hslash => absurd hslash hc

theorem scan_literal_cons {quote c : Char} (hc : c ≠ '\\') (hq : c ≠ quote) (text : List Char) :
    scan (.literal quote) (c :: text) =
      (c :: (scan (.literal quote) text).1, (scan (.literal quote) text).2) := by
  rw [scan, if_neg hq]
  exact fun d s hslash => absurd hslash hc

/-- Nothing inside quotation marks is a comment. -/
theorem scan_quoted (name : List Char) (h : '"' ∉ name) :
    scan (.literal '"') (name ++ ['"']) = (name ++ ['"'], false) := by
  match name with
  | [] => rfl
  | c :: name =>
    rw [List.mem_cons, not_or] at h
    by_cases hc : c = '\\'
    · subst hc
      match name with
      | [] => rfl
      | d :: name =>
        have ih := scan_quoted name fun hmem => h.2 (List.mem_cons_of_mem d hmem)
        rw [List.cons_append, List.cons_append, scan, ih]
    · rw [List.cons_append, scan_literal_cons hc (Ne.symm h.1), scan_quoted name h.2]

/-! ## What is left of a line -/

theorem length_scan_le (region : Region) (line : List Char) :
    (scan region line).1.length ≤ line.length := by
  fun_induction scan region line with
  | case1 | case2 => exact Nat.le_refl 0
  | case3 s => exact Nat.zero_le _
  | case4 s ih => exact Nat.le_succ_of_le (Nat.le_succ_of_le ih)
  | case5 c s _ _ out inBlock hscan ih =>
    rw [hscan] at ih
    exact Nat.succ_le_succ ih
  | case6 s out inBlock hscan ih =>
    rw [hscan] at ih
    exact Nat.succ_le_succ (Nat.le_succ_of_le ih)
  | case7 c s _ ih => exact Nat.le_succ_of_le ih
  | case8 quote c s out inBlock hscan ih =>
    rw [hscan] at ih
    exact Nat.succ_le_succ (Nat.succ_le_succ ih)
  | case9 quote c s _ out inBlock hscan ih =>
    rw [hscan] at ih
    exact Nat.succ_le_succ ih

/-- A line that breaks off inside a comment loses two characters at least. -/
theorem length_scan_add_two_le {region : Region} (hregion : region ≠ .block) {line : List Char}
    (h : (scan region line).2 = true) : (scan region line).1.length + 2 ≤ line.length := by
  fun_induction scan region line with
  | case1 | case6 | case7 => exact absurd rfl hregion
  | case2 | case3 => cases h
  | case4 s _ => exact Nat.succ_le_succ (Nat.succ_le_succ (length_scan_le .block s))
  | case5 c s _ _ out inBlock hscan ih =>
    rw [hscan] at ih
    exact Nat.succ_le_succ (ih (by split <;> simp) h)
  | case8 quote c s out inBlock hscan ih =>
    rw [hscan] at ih
    exact Nat.succ_le_succ (Nat.succ_le_succ (ih hregion h))
  | case9 quote c s _ out inBlock hscan ih =>
    rw [hscan] at ih
    exact Nat.succ_le_succ (ih (by split <;> simp) h)

/-- A line of which nothing is taken out is left as it is. -/
theorem stripComments_of_scan {line : List Char} (h : scan .code line = (line, false)) :
    stripComments false line = (line, false) := by
  rw [stripComments, if_neg Bool.false_ne_true, h]
  rfl

/-- A line that comments do not change has none that is open at its end. -/
theorem scan_of_stripComments {line : List Char} (h : (stripComments false line).1 = line) :
    scan .code line = (line, false) := by
  rw [stripComments, if_neg Bool.false_ne_true] at h
  rcases hscan : scan .code line with ⟨out, inBlock⟩
  cases inBlock with
  | false =>
    rw [hscan] at h
    rw [← h]
    rfl
  | true =>
    have hregion : Region.code ≠ .block := by simp
    have hlength := length_scan_add_two_le hregion (congrArg Prod.snd hscan)
    have hline := congrArg List.length h
    rw [hscan] at hlength hline
    dsimp only at hlength hline
    split at hline
    · rw [List.length_append, List.length_singleton] at hline
      omega
    · omega

end Preprocess
end ShaderKit
