import Mathlib.Data.List.Infix
import ShaderKit.Proofs.ReportPlaces

/-!
# What splicing does to a text

Splicing is told by the lines it makes.  Here it is told by the text: the logical lines, with line
feeds between them, are the text in which each line feed is deleted that stands behind a backslash,
and that backslash with it (`deletePairs`).  What has been deleted leaves no new pairs behind, since
it is not read again.  Two characters count for nothing: the line feed that ends the last line, and
after that a backslash that ends the text, as there is no line for it to go on in.

The other line feeds are *breaks* (`IsBreak`).  A logical line begins at the beginning of the text
and behind each break, and its number says how many line feeds, deleted or not, are in front of it
(`ofText_splices`).
-/

set_option autoImplicit false

namespace ShaderKit
namespace Text

/-! ## Lines and line feeds -/

/-- The text without its last character, if it is this one. -/
def dropFinal (c : Char) (text : List Char) : List Char :=
  if text.getLast? = some c then text.dropLast else text

theorem dropFinal_append {s : List Char} (hs : s ≠ []) (c : Char) (front : List Char) :
    dropFinal c (front ++ s) = front ++ dropFinal c s := by
  rw [dropFinal, dropFinal, List.getLast?_append_of_ne_nil _ hs,
    List.dropLast_append_of_ne_nil hs]
  split <;> rfl

theorem dropFinal_concat (c : Char) (front : List Char) : dropFinal c (front ++ [c]) = front := by
  rw [dropFinal_append (List.cons_ne_nil c [])]
  simp [dropFinal]

theorem newline_not_mem_of_mem_physicalLines {text : List Char} :
    ∀ line ∈ physicalLines text, '\n' ∉ line := by
  induction text with
  | nil => exact nofun
  | cons c text ih =>
    rw [physicalLines]
    split
    · exact List.forall_mem_cons.2 ⟨List.not_mem_nil, ih⟩
    · rename_i hc
      split
      · exact List.forall_mem_singleton.2 (by simp [Ne.symm hc])
      · rename_i line lines hlines
        rw [hlines, List.forall_mem_cons] at ih
        exact List.forall_mem_cons.2 ⟨by simp [Ne.symm hc, ih.1], ih.2⟩

/-- The lines with line feeds between them are the text, without the line feed that ends the last
one. -/
theorem intercalate_physicalLines (text : List Char) :
    ['\n'].intercalate (physicalLines text) = dropFinal '\n' text := by
  induction text with
  | nil => rfl
  | cons c text ih =>
    rw [physicalLines]
    rcases List.eq_nil_or_concat text with rfl | ⟨front, d, htext⟩
    · by_cases hc : c = '\n'
      · subst hc
        rfl
      · simp [hc, physicalLines, dropFinal]
    · have hne : text ≠ [] := by simp [htext]
      obtain ⟨line, lines, hlines⟩ := List.exists_cons_of_ne_nil (physicalLines_ne_nil hne)
      rw [← List.singleton_append (l := text), dropFinal_append hne, ← ih, hlines]
      split
      · rename_i hc
        rw [List.intercalate_cons_cons, hc]
        rfl
      · rcases lines with _ | ⟨next, lines⟩
        · simp
        · simp [List.intercalate_cons_cons]

end Text

namespace Preprocess
namespace LogicalLine

open Text (dropFinal dropFinal_append dropFinal_concat)

/-! ## Pairs of a backslash and a line feed -/

/-- The text without the backslashes that stand in front of a line feed, and without that line
feed. -/
def deletePairs : List Char → List Char
  | '\\' :: '\n' :: s => deletePairs s
  | c :: s => c :: deletePairs s
  | [] => []

theorem deletePairs_cons {c : Char} {s : List Char} (h : c = '\\' → s.head? ≠ some '\n') :
    deletePairs (c :: s) = c :: deletePairs s := by
  rw [deletePairs]
  rintro t hc rfl
  exact h hc rfl

/-- Where there are no line feeds, nothing is deleted. -/
theorem deletePairs_append {front : List Char} (hfront : '\n' ∉ front) {s : List Char}
    (h : front.getLast? = some '\\' → s.head? ≠ some '\n') :
    deletePairs (front ++ s) = front ++ deletePairs s := by
  induction front with
  | nil => rfl
  | cons c front ih =>
    rw [List.mem_cons, not_or] at hfront
    cases front with
    | nil => exact deletePairs_cons fun hc => h (congrArg some hc)
    | cons d front =>
      have hd : (d :: front ++ s).head? ≠ some '\n' := fun hhead =>
        hfront.2 (by rw [← Option.some.inj hhead]; exact List.mem_cons_self ..)
      rw [List.getLast?_cons_cons] at h
      rw [List.cons_append, deletePairs_cons fun _ => hd, ih hfront.2 h]
      rfl

theorem deletePairs_of_not_mem {s : List Char} (h : '\n' ∉ s) : deletePairs s = s := by
  have happend := deletePairs_append h (s := []) fun _ => nofun
  rwa [List.append_nil, deletePairs, List.append_nil] at happend

theorem getLast?_ne_of_continued?_eq_none {raw : List Char} (h : continued? raw = none) :
    raw.getLast? ≠ some '\\' := by
  intro hlast
  obtain ⟨body, hbody⟩ := List.getLast?_eq_some_iff.1 hlast
  rw [continued?_eq_some_iff.2 hbody] at h
  cases h

/-! ## What the lines say -/

/-- A text put in front of the first line is put in front of all of them. -/
theorem intercalate_append_cons (body line : List Char) (lines : List (List Char)) :
    ['\n'].intercalate ((body ++ line) :: lines) = body ++ ['\n'].intercalate (line :: lines) := by
  cases lines with
  | nil => rw [List.intercalate_singleton, List.intercalate_singleton]
  | cons next lines =>
    rw [List.intercalate_cons_cons, List.intercalate_cons_cons]
    simp only [List.append_assoc]

theorem dropFinal_backslash_newline (front s : List Char) :
    dropFinal '\\' (front ++ '\n' :: s) = front ++ '\n' :: dropFinal '\\' s := by
  rw [dropFinal_append (List.cons_ne_nil _ _)]
  rcases List.eq_nil_or_concat s with rfl | ⟨s, d, rfl⟩
  · rfl
  · rw [← List.singleton_append, dropFinal_append (by simp), List.singleton_append]

/-- **Splicing deletes the pairs of a backslash and a line feed**, and a backslash at the end. -/
theorem intercalate_splice {raws : List (List Char)} (hraws : ∀ raw ∈ raws, '\n' ∉ raw)
    (n : Nat) :
    ['\n'].intercalate ((splice n raws).map (·.text)) =
      deletePairs (dropFinal '\\' (['\n'].intercalate raws)) := by
  induction raws generalizing n with
  | nil => rfl
  | cons raw raws ih =>
    rw [List.forall_mem_cons] at hraws
    rcases splice_cons n raw raws with ⟨hraw, hsplice⟩ | ⟨body, hraw, rfl, hsplice⟩ |
      ⟨body, next, lines, hraw, hnext, hsplice⟩
    · have hlast := getLast?_ne_of_continued?_eq_none hraw
      rw [hsplice, List.map_cons]
      cases raws with
      | nil =>
        rw [List.intercalate_singleton, dropFinal, if_neg hlast, deletePairs_of_not_mem hraws.1]
        exact List.intercalate_singleton
      | cons second raws =>
        have hlines : (splice (n + 1) (second :: raws)).map (·.text) ≠ [] := by
          rw [ne_eq, List.map_eq_nil_iff]
          exact splice_ne_nil (List.cons_ne_nil second raws) (n + 1)
        rw [List.intercalate_cons_of_ne_nil hlines, ih hraws.2 (n + 1),
          List.intercalate_cons_cons, List.append_assoc, List.append_assoc,
          List.singleton_append, List.singleton_append, dropFinal_backslash_newline,
          deletePairs_append hraws.1 fun h => absurd h hlast,
          deletePairs_cons fun h => absurd h (by decide)]
    · rw [continued?_eq_some_iff] at hraw
      rw [hsplice, List.map_singleton, List.intercalate_singleton, List.intercalate_singleton,
        hraw, dropFinal_concat, deletePairs_of_not_mem]
      exact fun hmem => hraws.1 (hraw ▸ List.mem_append_left _ hmem)
    · rw [continued?_eq_some_iff] at hraw
      have hbody : '\n' ∉ body := fun hmem => hraws.1 (hraw ▸ List.mem_append_left _ hmem)
      have hmore : raws ≠ [] := by
        rintro rfl
        cases hnext
      have hrest := ih hraws.2 (n + 1)
      rw [hnext, List.map_cons] at hrest
      rw [hsplice, List.map_cons, intercalate_append_cons, hrest,
        List.intercalate_cons_of_ne_nil hmore, List.append_assoc, List.singleton_append,
        dropFinal_backslash_newline, hraw, List.append_assoc,
        deletePairs_append hbody fun _ => by simp]
      rfl

theorem newline_not_mem_text {raws : List (List Char)} (hraws : ∀ raw ∈ raws, '\n' ∉ raw)
    (n : Nat) : ∀ line ∈ splice n raws, '\n' ∉ line.text := by
  intro line hline
  obtain ⟨before, own, after, rfl, hmade⟩ := exists_isMadeOf line hline
  rw [hmade.text, List.mem_flatMap]
  rintro ⟨raw, hmem, hnewline⟩
  refine hraws raw (by simp [hmem]) ?_
  cases hraw : continued? raw with
  | none => rwa [uncontinued, hraw] at hnewline
  | some body =>
    rw [uncontinued, hraw] at hnewline
    rw [continued?_eq_some_iff.1 hraw]
    exact List.mem_append_left _ hnewline

/-! ## Where the lines begin -/

/-- The text ends with a line feed that no backslash stands in front of. -/
def IsBreak (text : List Char) : Prop := ['\n'] <:+ text ∧ ¬ ['\\', '\n'] <:+ text

instance (text : List Char) : Decidable (IsBreak text) := inferInstanceAs (Decidable (_ ∧ _))

/-- What is in front of the places behind the breaks of a text. -/
def breaks (text : List Char) : List (List Char) := text.inits.filter (IsBreak ·)

/-- The breaks of a text that come after its first part. -/
def breaksBehind (front s : List Char) : List (List Char) :=
  (s.inits.tail.map (front ++ ·)).filter (IsBreak ·)

theorem breaksBehind_nil (text : List Char) : breaksBehind [] text = breaks text := by
  have hnil : ¬ IsBreak [] := by decide
  cases text <;> simp [breaksBehind, breaks, hnil, Function.comp_def]

theorem breaksBehind_cons (front : List Char) (c : Char) (s : List Char) :
    breaksBehind front (c :: s) =
      if IsBreak (front ++ [c]) then (front ++ [c]) :: breaksBehind (front ++ [c]) s
      else breaksBehind (front ++ [c]) s := by
  have htail : (c :: s).inits.tail = [c] :: s.inits.tail.map (c :: ·) := by
    rw [List.inits_cons, List.tail_cons]
    cases s <;> simp
  have hfront : ((front ++ ·) ∘ (c :: ·)) = (front ++ [c] ++ ·) := by
    funext s
    simp
  rw [breaksBehind, htail, List.map_cons, List.map_map, hfront, List.filter_cons]
  simp only [decide_eq_true_eq]
  rfl

theorem suffix_concat_concat_iff {s front : List Char} {c d : Char} :
    s ++ [d] <:+ front ++ [c] ↔ s <:+ front ∧ c = d := by
  constructor
  · rintro ⟨t, ht⟩
    rw [← List.append_assoc] at ht
    obtain ⟨hfront, hc⟩ := List.append_inj' ht rfl
    exact ⟨⟨t, hfront⟩, (List.singleton_inj.1 hc).symm⟩
  · rintro ⟨⟨t, rfl⟩, rfl⟩
    exact ⟨t, (List.append_assoc t s [c]).symm⟩

theorem isBreak_concat_iff {front : List Char} {c : Char} :
    IsBreak (front ++ [c]) ↔ c = '\n' ∧ front.getLast? ≠ some '\\' := by
  have hlast : ['\\'] <:+ front ↔ front.getLast? = some '\\' := by
    rw [List.getLast?_eq_some_iff]
    exact exists_congr fun _ => eq_comm
  change [] ++ ['\n'] <:+ front ++ [c] ∧ ¬ ['\\'] ++ ['\n'] <:+ front ++ [c] ↔ _
  rw [suffix_concat_concat_iff, suffix_concat_concat_iff, hlast]
  constructor
  · rintro ⟨⟨-, hc⟩, hpair⟩
    exact ⟨hc, fun hfront => hpair ⟨hfront, hc⟩⟩
  · rintro ⟨hc, hfront⟩
    exact ⟨⟨List.nil_suffix, hc⟩, fun hpair => hfront hpair.1⟩

/-- A line without line feeds has no breaks in it. -/
theorem breaksBehind_append (front : List Char) {raw : List Char} (hraw : '\n' ∉ raw)
    (s : List Char) : breaksBehind front (raw ++ s) = breaksBehind (front ++ raw) s := by
  induction raw generalizing front with
  | nil => rw [List.nil_append, List.append_nil]
  | cons c raw ih =>
    rw [List.mem_cons, not_or] at hraw
    have hbreak : ¬ IsBreak (front ++ [c]) := fun h => hraw.1 (isBreak_concat_iff.1 h).1.symm
    rw [List.cons_append, breaksBehind_cons, if_neg hbreak, ih (front ++ [c]) hraw.2,
      List.append_assoc, List.singleton_append]

/-- What a line feed at the end of a line is, told by whether the line is continued. -/
theorem isBreak_line_iff {front raw : List Char} (hfront : Text.EndsLine front) :
    IsBreak (front ++ raw ++ ['\n']) ↔ continued? raw = none := by
  rw [isBreak_concat_iff, and_iff_right rfl, ← not_iff_not, not_not, ← ne_eq,
    Option.ne_none_iff_exists']
  simp only [continued?_eq_some_iff, ← List.getLast?_eq_some_iff]
  cases raw with
  | nil =>
    rcases hfront with rfl | ⟨front, rfl⟩ <;> simp
  | cons c raw => rw [List.getLast?_append_of_ne_nil _ (List.cons_ne_nil c raw)]

/-- The breaks behind a line that others follow are the one at its end, if it is not continued, and
those of the others. -/
theorem breaksBehind_intercalate {front raw : List Char} (hfront : Text.EndsLine front)
    (hraw : '\n' ∉ raw) {raws : List (List Char)} (hne : raws ≠ []) :
    breaksBehind front (['\n'].intercalate (raw :: raws)) =
      if continued? raw = none then
        (front ++ raw ++ ['\n']) ::
          breaksBehind (front ++ raw ++ ['\n']) (['\n'].intercalate raws)
      else breaksBehind (front ++ raw ++ ['\n']) (['\n'].intercalate raws) := by
  rw [List.intercalate_cons_of_ne_nil hne, List.append_assoc, breaksBehind_append front hraw,
    List.singleton_append, breaksBehind_cons]
  simp only [isBreak_line_iff hfront]

/-- **The numbers of the lines**, when the physical lines stand behind a text that ends with a
line feed. -/
theorem number_splice {front : List Char} (hfront : Text.EndsLine front)
    {raws : List (List Char)} (hraws : ∀ raw ∈ raws, '\n' ∉ raw) (hne : raws ≠ []) :
    (splice (front.count '\n' + 1) raws).map (·.number) =
      (front :: breaksBehind front (['\n'].intercalate raws)).map (·.count '\n' + 1) := by
  induction raws generalizing front with
  | nil => exact absurd rfl hne
  | cons raw raws ih =>
    rw [List.forall_mem_cons] at hraws
    -- The last line has no break behind it, be it continued or not.
    have hlast : breaksBehind front (['\n'].intercalate [raw]) = [] := by
      rw [List.intercalate_singleton]
      have happend := breaksBehind_append front hraws.1 []
      rwa [List.append_nil] at happend
    have hcount : (front ++ raw ++ ['\n']).count '\n' = front.count '\n' + 1 := by
      rw [List.count_append, List.count_append, List.count_eq_zero.2 hraws.1]
      rfl
    have hrest := @ih (front ++ raw ++ ['\n']) (.inr ⟨_, rfl⟩) hraws.2
    rw [hcount] at hrest
    rcases splice_cons (front.count '\n' + 1) raw raws with ⟨hraw, hsplice⟩ |
      ⟨body, -, rfl, hsplice⟩ | ⟨body, next, lines, hraw, hnext, hsplice⟩
    · rw [hsplice, List.map_cons]
      by_cases hmore : raws = []
      · rw [hmore, hlast]
        rfl
      · rw [hrest hmore, breaksBehind_intercalate hfront hraws.1 hmore, if_pos hraw]
        rfl
    · rw [hsplice, hlast]
      rfl
    · have hmore : raws ≠ [] := by
        rintro rfl
        cases hnext
      have hlines := hrest hmore
      rw [hnext, List.map_cons, List.map_cons, List.cons.injEq] at hlines
      rw [hsplice, List.map_cons, hlines.2, breaksBehind_intercalate hfront hraws.1 hmore, hraw]
      rfl

/-- **Splicing loses and invents nothing.**  The lines with line feeds between them are the text
without its final line feed, in which the pairs of a backslash and a line feed are deleted, and a
backslash at the end.  There are line feeds between them only, so there is one line more than there
are breaks.  The number of each is one more than the number of line feeds in front of it. -/
theorem ofText_splices (text : List Char) :
    ['\n'].intercalate ((ofText text).map (·.text)) =
        deletePairs (dropFinal '\\' (dropFinal '\n' text)) ∧
      (∀ line ∈ ofText text, '\n' ∉ line.text) ∧
      (ofText text).length =
        (if text = [] then 0 else (breaks (dropFinal '\n' text)).length + 1) ∧
      (ofText text).map (·.number) =
        (if text = [] then []
          else ([] :: breaks (dropFinal '\n' text)).map fun front => front.count '\n' + 1) ∧
      (ofText text).Pairwise (·.number < ·.number) := by
  have hraws := @Text.newline_not_mem_of_mem_physicalLines text
  have hnumber : (ofText text).map (·.number) =
      (if text = [] then []
        else ([] :: breaks (dropFinal '\n' text)).map fun front => front.count '\n' + 1) := by
    split
    · next htext => rw [htext]; rfl
    · next htext =>
      have hsplice := number_splice (.inl rfl) hraws (Text.physicalLines_ne_nil htext)
      rwa [Text.intercalate_physicalLines, breaksBehind_nil] at hsplice
  refine ⟨?_, newline_not_mem_text hraws 1, ?_, hnumber, pairwise_number 1 _⟩
  · rw [ofText, intercalate_splice hraws, Text.intercalate_physicalLines]
  · have hlength := congrArg List.length hnumber
    rw [List.length_map] at hlength
    rw [hlength]
    split <;> simp

end LogicalLine
end Preprocess
end ShaderKit
