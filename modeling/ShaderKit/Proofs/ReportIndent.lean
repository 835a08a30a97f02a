import Mathlib.Data.List.Basic
import ShaderKit.Report
import ShaderKit.Text.Blank

/-!
# Reports at a depth

To put a report deeper is to put blanks in front of all its lines that have anything on them
(`indentLines`).  That is a statement about texts: the lines are those between the line feeds of the
report, wherever in the report they come from.  It holds row by row (`indentLines_render`), if no
line row breaks into several lines or is empty (`Row.IsPlain`); rows of a text from elsewhere may
break, since the depth is put behind each of its line feeds.

All rows of a report are plain if the strings in it are (`forall_isPlain_shaderRows`,
`forall_isPlain_effectRows`), the text of a program excepted.  What is left is numbers, and they
have no line feeds in them.

The condition on the strings cannot be dropped.  A name with a line feed in it is printed as it is,
in a row at the depth of the entry, and what stands behind the line feed begins at the left edge
however deep the report is put.  Nor can it be that a line row is empty, as blanks would be put in
front of nothing.  There is one lemma for each kind of entry, and in each of them the strings of the
reflection stand between words of the report.

The shaders in the report of an effect are the reports of the shaders themselves, moved one step
deeper row by row (`renderRows_map_deeper`).  So `render_indented` needs no second proof for them.
-/

set_option autoImplicit false

namespace ShaderKit
namespace Report

open Bytecode

/-! ## Lines -/

/-- A line with blanks in front of it, unless there is nothing on it. -/
def indentLine (steps : Nat) (line : List Char) : List Char :=
  if line = [] then [] else indentation steps ++ line

/-- A text with blanks in front of each line that has anything on it. -/
def indentLines (steps : Nat) (text : List Char) : List Char :=
  ['\n'].intercalate ((Text.splitOn '\n' text).map (indentLine steps))

/-- The first line is indented, and then the rest. -/
theorem indentLines_cons_line {line : List Char} (hline : '\n' ∉ line) (steps : Nat)
    (rest : List Char) : indentLines steps (line ++ '\n' :: rest) =
      indentLine steps line ++ '\n' :: indentLines steps rest := by
  obtain ⟨first, others, hrest⟩ := List.exists_cons_of_ne_nil (Text.splitOn_ne_nil '\n' rest)
  rw [indentLines, Text.splitOn_append_cons, Text.splitOn_of_not_mem hline, indentLines, hrest]
  simp [List.intercalate]

example : indentLines 1 "a\n\n b\n".toList = "    a\n\n     b\n".toList := by decide

/-- There are no line feeds in a string. -/
def IsOneLine (text : String) : Prop := '\n' ∉ text.toList

instance (text : String) : Decidable (IsOneLine text) := inferInstanceAs (Decidable (_ ∉ _))

/-! ## Rows -/

namespace Row

/-- A line row is one line, with something on it; a block is deeper than nothing. -/
def IsPlain : Row → Prop
  | line _ text => IsOneLine text ∧ text ≠ ""
  | blank => True
  | block depth _ => 0 < depth

/-- A plain row is plain wherever it is put. -/
theorem isPlain_deeper {r : Row} (steps : Nat) (h : r.IsPlain) : (r.deeper steps).IsPlain := by
  cases r with
  | line => exact h
  | blank => exact h
  | block depth => exact Nat.lt_of_lt_of_le h (Nat.le_add_right depth steps)

/-- Steps add up, and it does not matter in which order they are taken. -/
theorem deeper_deeper (r : Row) (steps more : Nat) :
    (r.deeper steps).deeper more = r.deeper (more + steps) := by
  cases r with
  | line depth => exact congrArg (line · _) (by omega)
  | blank => rfl
  | block depth => exact congrArg (block · _) (by omega)

theorem deeper_zero (r : Row) : r.deeper 0 = r := by cases r <;> rfl

end Row

theorem indentation_add (depth steps : Nat) :
    indentation (depth + steps) = indentation steps ++ indentation depth := by
  rw [indentation, Nat.mul_add, Nat.add_comm, indentation, indentation, List.replicate_add]

theorem newline_not_mem_indentation (depth : Nat) : '\n' ∉ indentation depth := by
  rw [indentation, List.mem_replicate]
  exact fun h => absurd h.2 (by decide)

/-- What a block is like: each of its lines is indented by its depth, and so it is indented further
as any line is. -/
theorem indentLines_indentAfterBreaks {depth : Nat} (hdepth : 0 < depth) (steps : Nat)
    {line : List Char} (hline : '\n' ∉ line) (text rest : List Char) :
    indentLines steps (indentation depth ++ line ++ indentAfterBreaks depth text ++ '\n' :: rest) =
      indentation (depth + steps) ++ line ++ indentAfterBreaks (depth + steps) text ++
        '\n' :: indentLines steps rest := by
  have hfirst {line : List Char} : indentLine steps (indentation depth ++ line) =
      indentation (depth + steps) ++ line := by
    have hne : indentation depth ≠ [] := by
      rw [indentation, Ne, List.replicate_eq_nil_iff]
      omega
    rw [indentLine, if_neg (by simp [hne]), indentation_add, List.append_assoc]
  induction text generalizing line with
  | nil =>
    have hnone : '\n' ∉ indentation depth ++ line := by
      simp [newline_not_mem_indentation, hline]
    simpa [indentAfterBreaks, hfirst] using indentLines_cons_line hnone steps rest
  | cons c text ih =>
    by_cases hc : c = '\n'
    · subst hc
      have hnone : '\n' ∉ indentation depth ++ line := by
        simp [newline_not_mem_indentation, hline]
      have hrest := @ih [] List.not_mem_nil
      rw [List.append_nil, List.append_nil] at hrest
      have hlines := indentLines_cons_line hnone steps
        (indentation depth ++ indentAfterBreaks depth text ++ '\n' :: rest)
      rw [hrest, hfirst] at hlines
      simpa [indentAfterBreaks] using hlines
    · have hmore : '\n' ∉ line ++ [c] := by simp [hline, Ne.symm hc]
      simpa [indentAfterBreaks, hc] using ih hmore

/-- A row is indented with the text that follows it. -/
theorem indentLines_render {r : Row} (h : r.IsPlain) (steps : Nat) (rest : List Char) :
    indentLines steps (r.render ++ rest) = (r.deeper steps).render ++ indentLines steps rest := by
  cases r with
  | line depth text =>
    obtain ⟨hone, hne⟩ := h
    have hnone : '\n' ∉ indentation depth ++ text.toList := fun hmem =>
      (List.mem_append.1 hmem).elim (newline_not_mem_indentation depth) hone
    have hsome : indentation depth ++ text.toList ≠ [] := by simp [hne]
    have hlines := indentLines_cons_line hnone steps rest
    rw [indentLine, if_neg hsome] at hlines
    simpa [Row.render, Row.deeper, indentation_add] using hlines
  | blank => exact indentLines_cons_line List.not_mem_nil steps rest
  | block depth text =>
    have hlines := indentLines_indentAfterBreaks h steps List.not_mem_nil text.toList rest
    simpa [Row.render, Row.deeper] using hlines

/-- Plain rows at a depth are the rows without depth, indented as a text. -/
theorem indentLines_renderRows {rows : List Row} (h : ∀ r ∈ rows, r.IsPlain) (steps : Nat) :
    (renderRows steps rows).toList = indentLines steps (renderRows 0 rows).toList := by
  simp only [renderRows, String.toList_ofList, Row.deeper_zero]
  induction rows with
  | nil => rfl
  | cons r rows ih =>
    obtain ⟨hr, hrows⟩ := List.forall_mem_cons.1 h
    rw [List.flatMap_cons, List.flatMap_cons, indentLines_render hr, ih hrows]

/-! ## Entries

The strings of a reflection are put together with numbers and with words of the report. -/

theorem isOneLine_append {s t : String} : IsOneLine (s ++ t) ↔ IsOneLine s ∧ IsOneLine t := by
  simp [IsOneLine]

theorem toString_string (s : String) : toString s = s := rfl

/-- A number is printed with digits. -/
theorem isOneLine_nat (n : Nat) : IsOneLine (toString n) := by
  rw [IsOneLine, Nat.toString_eq_repr, Nat.toList_repr]
  intro h
  have hdigit : ('\n').isDigit = true := Nat.isDigit_of_mem_toDigits (by decide) (by decide) h
  exact absurd hdigit (by decide)

theorem isOneLine_int (n : Int) : IsOneLine (toString n) := by
  cases n with
  | ofNat n => exact isOneLine_nat n
  | negSucc n => exact isOneLine_append.2 ⟨by decide, isOneLine_nat (n + 1)⟩

theorem newline_not_mem_lowDigits (places n : Nat) : '\n' ∉ Single.lowDigits places n := by
  have hdigit : ∀ d < 10, '\n' ≠ Nat.digitChar d := by decide
  induction places generalizing n with
  | zero => exact List.not_mem_nil
  | succ places ih =>
    rw [Single.lowDigits, List.mem_append, List.mem_singleton, not_or]
    exact ⟨ih (n / 10), hdigit _ (Nat.mod_lt n (by decide))⟩

/-- So is a number with a point in it; what is no number is told by a word. -/
theorem isOneLine_fixed (x : Single) : IsOneLine x.fixed := by
  have hsign : IsOneLine (if x.isNegative then "-" else "") := by split <;> decide
  unfold Single.fixed
  split
  · decide
  · cases x.magnitude? with
    | none => exact isOneLine_append.2 ⟨hsign, by decide⟩
    | some quotient =>
      refine isOneLine_append.2 ⟨?_, ?_⟩
      · simp only [isOneLine_append, toString_string, isOneLine_nat, hsign, true_and]
        decide
      · rw [IsOneLine, String.toList_ofList]
        exact newline_not_mem_lowDigits _ _

theorem isOneLine_digits (n : Nat) : IsOneLine (Hexadecimal.digits n) := by
  have hdigit : ∀ d < 16, '\n' ≠ (Nat.digitChar d).toUpper := by decide
  rw [IsOneLine, Hexadecimal.digits, String.toList_ofList]
  induction n using Nat.strongRecOn with
  | ind n ih =>
    rw [Nat.toDigits_eq_if (by decide)]
    split
    · rename_i hlt
      rw [List.map_singleton, List.mem_singleton]
      exact hdigit n hlt
    · rw [List.map_append, List.mem_append, List.map_singleton, List.mem_singleton, not_or]
      exact ⟨ih _ (Nat.div_lt_self (by omega) (by decide)), hdigit _ (Nat.mod_lt n (by decide))⟩

theorem isOneLine_nameNote {name : Option String} (h : ∀ t ∈ name, IsOneLine t) :
    IsOneLine (nameNote name) := by
  cases name with
  | none => decide
  | some name =>
    simp only [nameNote, isOneLine_append, toString_string, h name rfl]
    decide

/-- The usage and its index, and the name of the attribute if it has one. -/
theorem isOneLine_attributeEntry {a : Attribute} (h : ∀ t ∈ a.name, IsOneLine t) :
    IsOneLine (attributeEntry a) := by
  have husage : IsOneLine a.usage.name := by cases a.usage <;> decide
  have hindex : IsOneLine (if a.index = 0 then "" else toString a.index) := by
    split
    · decide
    · exact isOneLine_nat _
  simp only [attributeEntry, isOneLine_append, toString_string, husage, hindex,
    isOneLine_nameNote h, and_true]

/-- Four numbers with blanks between them, or a word. -/
theorem isOneLine_valueText (v : ConstantValue) : IsOneLine (valueText v) := by
  cases v with
  | float v =>
    simp only [valueText, isOneLine_append, toString_string, isOneLine_fixed]
    decide
  | int v =>
    simp only [valueText, isOneLine_append, toString_string, isOneLine_int]
    decide
  | bool b => cases b <;> decide

theorem isOneLine_constantEntry (c : Constant) : IsOneLine (constantEntry c) := by
  have htype : IsOneLine c.value.type.name := by cases c.value.type <;> decide
  simp only [constantEntry, isOneLine_append, toString_string, isOneLine_nat, htype,
    isOneLine_valueText]
  decide

/-- Notes are put between the register of a uniform and its type. -/
theorem isOneLine_uniformEntry {u : Uniform} (h : ∀ t ∈ u.name, IsOneLine t) :
    IsOneLine (uniformEntry u) := by
  have htype : IsOneLine u.type.name := by cases u.type <;> decide
  have hconstant : IsOneLine (if u.constant then "const " else "") := by split <;> decide
  have harray : IsOneLine
      (if u.arrayCount > 0 then "array[" ++ toString u.arrayCount ++ "] " else "") := by
    split
    · simp only [isOneLine_append, isOneLine_nat]
      decide
    · decide
  simp only [uniformEntry, isOneLine_append, toString_string, isOneLine_nat, htype, hconstant,
    harray, isOneLine_nameNote h]
  decide

theorem isOneLine_samplerEntry {s : Sampler} (h : ∀ t ∈ s.name, IsOneLine t) :
    IsOneLine (samplerEntry s) := by
  have htype : IsOneLine s.type.name := by cases s.type <;> decide
  simp only [samplerEntry, isOneLine_append, toString_string, isOneLine_nat, htype,
    isOneLine_nameNote h]
  decide

/-! ## Reports -/

/-- The strings in a diagnostic. -/
def diagnosticTexts (d : Diagnostic) : List String := d.message :: d.file.toList

/-- The strings in the reflection of a shader, but for the text of the program. -/
def shaderTexts (s : ShaderReflection) : List String :=
  s.profile :: (s.diagnostics.flatMap diagnosticTexts ++ s.attributes.filterMap (·.name) ++
    s.uniforms.filterMap (·.name) ++ s.samplers.filterMap (·.name))

/-- The strings in the reflection of an effect, but for the texts of programs. -/
def effectTexts (e : EffectReflection) : List String :=
  e.profile :: (e.diagnostics.flatMap diagnosticTexts ++
    e.techniques.flatMap (fun t => t.name :: t.passes.map (·.name)) ++
    e.textures.map (·.name) ++ e.shaders.flatMap fun s => shaderTexts s.shader)

theorem isPlain_section {label : String} (hlabel : IsOneLine label) {rest : String}
    (hrest : IsOneLine rest) (hne : rest ≠ "") : (Row.line 0 s!"{label}{rest}").IsPlain :=
  ⟨isOneLine_append.2 ⟨hlabel, hrest⟩, by simp [toString_string, hne]⟩

/-- A section is plain if its entries are; without entries there is a note. -/
theorem forall_isPlain_sectionRows {α : Type} {label : String} {entry : α → String} {items : List α}
    (hlabel : IsOneLine label) (hentries : ∀ a ∈ items, IsOneLine (entry a)) :
    ∀ r ∈ sectionRows label entry items, r.IsPlain := by
  cases items with
  | nil =>
    rw [sectionRows, List.forall_mem_singleton]
    exact isPlain_section hlabel (by decide) (by decide)
  | cons a items =>
    rw [sectionRows, List.forall_mem_cons, List.forall_mem_map]
    · refine ⟨isPlain_section hlabel (by decide) (by decide), fun b hb => ?_⟩
      exact ⟨isOneLine_append.2 ⟨by decide, hentries b hb⟩, by simp [toString_string]⟩
    · exact List.cons_ne_nil a items

/-- A diagnostic is one row: a file, a position and a message. -/
theorem forall_isPlain_diagnosticRows {fname : String} {ds : List Diagnostic}
    (hfname : IsOneLine fname) (h : ∀ t ∈ ds.flatMap diagnosticTexts, IsOneLine t) :
    ∀ r ∈ diagnosticRows fname ds, r.IsPlain := by
  rw [diagnosticRows, List.forall_mem_map]
  intro d hd
  have htexts : ∀ t ∈ diagnosticTexts d, IsOneLine t := fun t ht =>
    h t (List.mem_flatMap.2 ⟨d, hd, ht⟩)
  rw [diagnosticTexts, List.forall_mem_cons] at htexts
  have hfile : IsOneLine (d.file.getD fname) := by
    cases hfile : d.file with
    | none => exact hfname
    | some file => exact htexts.2 file (by simp [hfile])
  refine ⟨?_, by simp [Diagnostic.render, toString_string]⟩
  simp only [Diagnostic.render, isOneLine_append, toString_string, isOneLine_nat, hfile, htexts.1]
  decide

/-- All that is told of a shader that was read. -/
theorem forall_isPlain_contentRows {s : ShaderReflection} (h : ∀ t ∈ shaderTexts s, IsOneLine t) :
    ∀ r ∈ contentRows s, r.IsPlain := by
  simp only [shaderTexts, List.forall_mem_cons, List.forall_mem_append] at h
  obtain ⟨-, ⟨⟨-, hattributes⟩, huniforms⟩, hsamplers⟩ := h
  have hname {α : Type} {name : α → Option String} {items : List α}
      (hnames : ∀ t ∈ items.filterMap name, IsOneLine t) :
      ∀ a ∈ items, ∀ t ∈ name a, IsOneLine t := fun a ha t ht =>
    hnames t (List.mem_filterMap.2 ⟨a, ha, ht⟩)
  have hkind : IsOneLine s.kind.name := by cases s.kind <;> decide
  have hheading : ∀ r ∈ [Row.line 0 s!"SHADER TYPE: {s.kind.name}",
      .line 0 s!"VERSION: {s.major}.{s.minor}",
      .line 0 s!"INSTRUCTION COUNT: {s.instructionCount}"], r.IsPlain := by
    rw [List.forall_mem_cons, List.forall_mem_cons, List.forall_mem_singleton]
    refine ⟨isPlain_section (by decide) hkind ?_, ⟨?_, by simp [toString_string]⟩,
      ⟨isOneLine_append.2 ⟨by decide, isOneLine_nat _⟩, by simp [toString_string]⟩⟩
    · cases s.kind <;> decide
    · simp only [isOneLine_append, toString_string, isOneLine_nat]
      decide
  have houtput : ∀ r ∈ outputRows s.output, r.IsPlain := by
    cases s.output with
    | none => exact fun r hr => absurd hr List.not_mem_nil
    | some text =>
      simp only [outputRows, List.forall_mem_cons, Row.IsPlain]
      exact ⟨by decide, by decide, nofun⟩
  simp only [contentRows, List.forall_mem_append]
  refine ⟨⟨⟨⟨⟨hheading, ?_⟩, ?_⟩, ?_⟩, ?_⟩, houtput⟩
  · exact forall_isPlain_sectionRows (by decide) fun a ha =>
      isOneLine_attributeEntry (hname hattributes a ha)
  · exact forall_isPlain_sectionRows (by decide) fun c _ => isOneLine_constantEntry c
  · exact forall_isPlain_sectionRows (by decide) fun u hu =>
      isOneLine_uniformEntry (hname huniforms u hu)
  · exact forall_isPlain_sectionRows (by decide) fun t ht =>
      isOneLine_samplerEntry (hname hsamplers t ht)

theorem isPlain_profile {profile : String} (h : IsOneLine profile) :
    (Row.line 0 s!"PROFILE: {profile}").IsPlain :=
  ⟨isOneLine_append.2 ⟨by decide, h⟩, by simp [toString_string]⟩

/-- The rows of a shader, read or failed. -/
theorem forall_isPlain_shaderRows {fname : String} {s : ShaderReflection} (hfname : IsOneLine fname)
    (h : ∀ t ∈ shaderTexts s, IsOneLine t) : ∀ r ∈ shaderRows fname s, r.IsPlain := by
  have htexts := h
  simp only [shaderTexts, List.forall_mem_cons, List.forall_mem_append] at htexts
  simp only [shaderRows, List.forall_mem_append, List.forall_mem_singleton]
  refine ⟨⟨isPlain_profile htexts.1, ?_⟩, by simp [Row.IsPlain]⟩
  split
  · exact forall_isPlain_contentRows h
  · exact forall_isPlain_diagnosticRows hfname htexts.2.1.1.1

theorem forall_isPlain_passRows {number : Nat} {p : Pass} (h : IsOneLine p.name) :
    ∀ r ∈ passRows number p, r.IsPlain := by
  rw [passRows, List.forall_mem_cons, List.forall_mem_map]
  refine ⟨⟨?_, by simp [toString_string]⟩, fun type _ => ⟨?_, by simp [toString_string]⟩⟩
  · simp only [isOneLine_append, toString_string, isOneLine_nat, h]
    decide
  · exact isOneLine_append.2 ⟨by decide, isOneLine_digits _⟩

theorem forall_isPlain_techniqueRows {number : Nat} {t : Technique}
    (h : ∀ u ∈ t.name :: t.passes.map (·.name), IsOneLine u) :
    ∀ r ∈ techniqueRows number t, r.IsPlain := by
  obtain ⟨hname, hpasses⟩ := List.forall_mem_cons.1 h
  simp only [techniqueRows, List.forall_mem_append, List.forall_mem_cons]
  refine ⟨⟨⟨?_, by simp [toString_string]⟩, ?_⟩, trivial, nofun⟩
  · simp only [isOneLine_append, toString_string, isOneLine_nat, hname]
    decide
  · rw [List.forall_mem_flatMap]
    rintro ⟨p, i⟩ hp
    exact forall_isPlain_passRows (hpasses _ (List.mem_map_of_mem (List.fst_mem_of_mem_zipIdx hp)))

theorem isPlain_textureRow {number : Nat} {t : Texture} (h : IsOneLine t.name) :
    (textureRow number t).IsPlain := by
  refine ⟨?_, by simp [toString_string]⟩
  simp only [isOneLine_append, toString_string, isOneLine_nat, h]
  decide

/-- A shader in an effect has a heading, and stands one step deeper. -/
theorem forall_isPlain_effectShaderRows {fname : String} {number : Nat} {s : EffectShader}
    (hfname : IsOneLine fname) (h : ∀ t ∈ shaderTexts s.shader, IsOneLine t) :
    ∀ r ∈ effectShaderRows fname number s, r.IsPlain := by
  rw [effectShaderRows, List.forall_mem_cons, List.forall_mem_map]
  refine ⟨⟨?_, by simp [toString_string]⟩, fun r hr => ?_⟩
  · simp only [isOneLine_append, toString_string, isOneLine_nat]
    decide
  · exact Row.isPlain_deeper 1 (forall_isPlain_shaderRows hfname h r hr)

/-- The rows of an effect, read or failed. -/
theorem forall_isPlain_effectRows {fname : String} {e : EffectReflection}
    (hfname : IsOneLine fname) (h : ∀ t ∈ effectTexts e, IsOneLine t) :
    ∀ r ∈ effectRows fname e, r.IsPlain := by
  simp only [effectTexts, List.forall_mem_cons, List.forall_mem_append, List.forall_mem_flatMap,
    List.forall_mem_map] at h
  obtain ⟨hprofile, ⟨⟨hdiagnostics, htechniques⟩, htextures⟩, hshaders⟩ := h
  rw [effectRows, List.forall_mem_append, List.forall_mem_cons, List.forall_mem_singleton]
  refine ⟨⟨isPlain_profile hprofile, trivial⟩, ?_⟩
  split
  · simp only [List.forall_mem_append, List.forall_mem_flatMap, List.forall_mem_map,
      List.forall_mem_singleton]
    refine ⟨⟨⟨?_, ?_⟩, trivial⟩, ?_⟩
    · rintro ⟨t, i⟩ ht
      refine forall_isPlain_techniqueRows ?_
      rw [List.forall_mem_cons, List.forall_mem_map]
      exact htechniques t (List.fst_mem_of_mem_zipIdx ht)
    · rintro ⟨t, i⟩ ht
      exact isPlain_textureRow (htextures t (List.fst_mem_of_mem_zipIdx ht))
    · rintro ⟨s, i⟩ hs
      exact forall_isPlain_effectShaderRows hfname (hshaders s (List.fst_mem_of_mem_zipIdx hs))
  · exact forall_isPlain_diagnosticRows hfname
      fun t ht => (List.mem_flatMap.1 ht).elim fun d hd => hdiagnostics d hd.1 t hd.2

/-! ## Shaders in an effect -/

theorem renderRows_append (steps : Nat) (rows more : List Row) :
    (renderRows steps (rows ++ more)).toList =
      (renderRows steps rows).toList ++ (renderRows steps more).toList := by
  simp [renderRows]

/-- To put rows deeper is to put out the report deeper. -/
theorem renderRows_map_deeper (steps more : Nat) (rows : List Row) :
    renderRows steps (rows.map (Row.deeper more)) = renderRows (steps + more) rows := by
  rw [renderRows, renderRows, List.flatMap_map]
  simp only [Row.deeper_deeper]

/-- The line above a shader of an effect. -/
def shaderHeading (number : Nat) (s : EffectShader) : String :=
  s!"SHADER #{number}: technique {s.technique.toNat}, pass {s.pass.toNat}"

theorem renderRows_effectShaderRows (steps : Nat) (fname : String) (number : Nat)
    (s : EffectShader) :
    (renderRows steps (effectShaderRows fname number s)).toList =
      indentation steps ++ (shaderHeading number s).toList ++ '\n' ::
        (renderShader fname s.shader (steps + 1)).toList := by
  have hrows := renderRows_append steps [.line 0 (shaderHeading number s)]
    ((shaderRows fname s.shader).map (Row.deeper 1))
  rw [renderRows_map_deeper] at hrows
  refine hrows.trans ?_
  simp [renderRows, renderShader, Row.deeper, Row.render]

theorem renderRows_flatMap {α : Type} (steps : Nat) (rows : α → List Row) (items : List α) :
    (renderRows steps (items.flatMap rows)).toList =
      items.flatMap fun a => (renderRows steps (rows a)).toList := by
  induction items with
  | nil => rfl
  | cons a items ih => rw [List.flatMap_cons, renderRows_append, ih, List.flatMap_cons]

/-- **A report does not depend on where it is put**: at a depth it is the report without depth, with
blanks in front of its lines; the shaders of an effect come last, and each of them is as it is by
itself, one step deeper; and what is reported of a reading that failed is the failure. -/
theorem render_indented (fname : String) (steps : Nat) :
    (∀ s : ShaderReflection, (∀ t ∈ fname :: shaderTexts s, IsOneLine t) →
      (renderShader fname s steps).toList = indentLines steps (renderShader fname s 0).toList) ∧
    (∀ e : EffectReflection, (∀ t ∈ fname :: effectTexts e, IsOneLine t) →
      (renderEffect fname e steps).toList = indentLines steps (renderEffect fname e 0).toList) ∧
    (∀ e : EffectReflection, e.diagnostics = [] →
      (renderEffect fname e steps).toList =
        (renderEffect fname { e with shaders := [] } steps).toList ++
          e.shaders.zipIdx.flatMap fun (s, number) =>
            indentation steps ++ (shaderHeading number s).toList ++ '\n' ::
              (renderShader fname s.shader (steps + 1)).toList) ∧
    (∀ s s' : ShaderReflection, s.diagnostics ≠ [] → s'.profile = s.profile →
      s'.diagnostics = s.diagnostics → renderShader fname s' steps = renderShader fname s steps) ∧
    (∀ e e' : EffectReflection, e.diagnostics ≠ [] → e'.profile = e.profile →
      e'.diagnostics = e.diagnostics →
      renderEffect fname e' steps = renderEffect fname e steps) := by
  refine ⟨fun s h => ?_, fun e h => ?_, fun e h => ?_, fun s s' h hprofile hdiagnostics => ?_,
    fun e e' h hprofile hdiagnostics => ?_⟩
  · obtain ⟨hfname, htexts⟩ := List.forall_mem_cons.1 h
    exact indentLines_renderRows (forall_isPlain_shaderRows hfname htexts) steps
  · obtain ⟨hfname, htexts⟩ := List.forall_mem_cons.1 h
    exact indentLines_renderRows (forall_isPlain_effectRows hfname htexts) steps
  · have hrows : effectRows fname e = effectRows fname { e with shaders := [] } ++
        e.shaders.zipIdx.flatMap fun (s, number) => effectShaderRows fname number s := by
      simp [effectRows, h]
    rw [renderEffect, hrows, renderRows_append, renderRows_flatMap]
    simp only [renderRows_effectShaderRows]
    rfl
  · simp only [renderShader, shaderRows, hprofile, hdiagnostics, List.isEmpty_iff, h, if_false]
  · simp only [renderEffect, effectRows, hprofile, hdiagnostics, List.isEmpty_iff, h, if_false]

/-- A shader with the text of a program, which has an empty line. -/
def printedShader : ShaderReflection := { profile := "glsl", output := some "a\n\nb" }

/-- An effect whose only shader is the one with the text. -/
def printingEffect : EffectReflection where
  profile := "glsl"
  techniques := [⟨"t", [⟨"p", [0x92]⟩]⟩]
  shaders := [⟨0, 0, printedShader⟩]

theorem render_indented_printingEffect :
    ((∀ t ∈ "f" :: shaderTexts printedShader, IsOneLine t) ∧
      (renderShader "f" printedShader 2).toList =
        indentLines 2 (renderShader "f" printedShader 0).toList) ∧
    ((∀ t ∈ "f" :: effectTexts printingEffect, IsOneLine t) ∧
      (renderEffect "f" printingEffect 1).toList =
        indentLines 1 (renderEffect "f" printingEffect 0).toList) ∧
    (printingEffect.diagnostics = [] ∧
      (renderEffect "f" printingEffect 1).toList =
        (renderEffect "f" { printingEffect with shaders := [] } 1).toList ++
          [(⟨0, 0, printedShader⟩, 0)].flatMap fun (s, number) =>
            indentation 1 ++ (shaderHeading number s).toList ++ '\n' ::
              (renderShader "f" s.shader 2).toList) ∧
    ([⟨none, 1, "m"⟩] ≠ ([] : List Diagnostic) ∧
      renderShader "f" { printedShader with diagnostics := [⟨none, 1, "m"⟩] } 1 =
        renderShader "f" (.failed "glsl" [⟨none, 1, "m"⟩]) 1 ∧
      renderEffect "f" { printingEffect with diagnostics := [⟨none, 1, "m"⟩] } 1 =
        renderEffect "f" (.failed "glsl" [⟨none, 1, "m"⟩]) 1) := by
  have hshader : ∀ t ∈ "f" :: shaderTexts printedShader, IsOneLine t := by decide
  have heffect : ∀ t ∈ "f" :: effectTexts printingEffect, IsOneLine t := by decide
  obtain ⟨-, heffects, hsplit, hshaders', heffects'⟩ := render_indented "f" 1
  exact ⟨⟨hshader, (render_indented "f" 2).1 _ hshader⟩, ⟨heffect, heffects _ heffect⟩,
    ⟨rfl, hsplit _ rfl⟩, by decide, hshaders' (.failed _ _) _ (by decide) rfl rfl,
    heffects' (.failed _ _) _ (by decide) rfl rfl⟩

end Report
end ShaderKit
