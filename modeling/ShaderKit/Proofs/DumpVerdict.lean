import ShaderKit.CommandLine.Dump
import ShaderKit.Proofs.ReportIndent
import ShaderKit.Proofs.Success
import ShaderKit.Proofs.TextSeams

/-!
# What the dump shows, and how it ends

The dump says twice what it thinks of a file: in the report, where diagnostics take the place of
what was read, and at the end, where the file is listed or is not.  The two agree.  A report shows a
diagnostic exactly if there is one anywhere in the reflection (`isOk_eq_false_iff`), although not
all of them are shown: behind the diagnostics of an effect nothing is said about its shaders.

So a file *fails* (`Fails`) if it cannot be read or if a diagnostic is to be seen in its block, and
the end of the dump tells of these files and of no others (`runDump_fileByFile`).

All of this is about a dump that can be put out.  Where the output takes no more, the run ends with
an error of its own, whatever the files are like (`runDump_of_write_eq_error`).
-/

set_option autoImplicit false

namespace ShaderKit

namespace Bytecode
namespace Reflection

/-- All diagnostics: those of the shader or of the bundle itself, and those of the shaders in it. -/
def diagnostics : Reflection → List Diagnostic
  | shader s => s.diagnostics
  | effect e => e.diagnostics ++ e.shaders.flatMap (·.shader.diagnostics)

theorem isOk_iff (r : Reflection) : r.isOk = true ↔ r.diagnostics = [] := by
  cases r with
  | shader s => exact List.isEmpty_iff
  | effect e =>
    simp only [isOk, EffectReflection.isOk, ShaderReflection.isOk, diagnostics, Bool.and_eq_true,
      List.isEmpty_iff, List.all_eq_true, List.append_eq_nil_iff, List.flatMap_eq_nil_iff]

end Reflection
end Bytecode

namespace Report

open Bytecode

/-! ## Lines of a report -/

/-- The string stands in the text on lines of its own, at some depth. -/
def HasLine (text : List Char) (line : String) : Prop :=
  ∃ before depth after, Text.EndsLine before ∧
    text = before ++ indentation depth ++ line.toList ++ '\n' :: after

theorem endsLine_append {front text : List Char} (hfront : Text.EndsLine front)
    (h : Text.EndsLine text) : Text.EndsLine (front ++ text) := by
  rcases h with rfl | ⟨body, rfl⟩
  · rwa [List.append_nil]
  · exact Or.inr ⟨front ++ body, (List.append_assoc ..).symm⟩

theorem HasLine.append_left {text : List Char} {line : String} (h : HasLine text line)
    {front : List Char} (hfront : Text.EndsLine front) : HasLine (front ++ text) line := by
  obtain ⟨before, depth, after, hbefore, rfl⟩ := h
  exact ⟨front ++ before, depth, after, endsLine_append hfront hbefore, by simp⟩

theorem endsLine_render (r : Row) : Text.EndsLine r.render := by
  cases r with
  | line depth text => exact Or.inr ⟨_, rfl⟩
  | blank => exact Or.inr ⟨[], rfl⟩
  | block depth text => exact Or.inr ⟨_, rfl⟩

theorem endsLine_renderRows (steps : Nat) (rows : List Row) :
    Text.EndsLine (renderRows steps rows).toList := by
  induction rows with
  | nil => exact Or.inl (by simp [renderRows])
  | cons r rows ih =>
    have hrow : Text.EndsLine (renderRows steps [r]).toList := by
      simpa [renderRows] using endsLine_render (r.deeper steps)
    rw [← List.singleton_append, renderRows_append]
    exact endsLine_append hrow ih

/-- A line row is a line of the text. -/
theorem hasLine_renderRows {rows : List Row} {depth : Nat} {line : String}
    (h : Row.line depth line ∈ rows) (steps : Nat) :
    HasLine (renderRows steps rows).toList line := by
  obtain ⟨rows, more, rfl⟩ := List.append_of_mem h
  have hline : HasLine (renderRows steps (.line depth line :: more)).toList line :=
    ⟨[], depth + steps, (renderRows steps more).toList, Or.inl rfl,
      by simp [renderRows, Row.deeper, Row.render]⟩
  rw [renderRows_append]
  exact hline.append_left (endsLine_renderRows steps rows)

/-! ## Diagnostics in a report -/

theorem mem_shaderRows {s : ShaderReflection} {d : Diagnostic} (h : d ∈ s.diagnostics)
    (fname : String) : Row.line 0 (d.render fname) ∈ shaderRows fname s := by
  have hsome : s.diagnostics.isEmpty = false :=
    List.isEmpty_eq_false_iff.2 (List.ne_nil_of_mem h)
  have hrow : Row.line 0 (d.render fname) ∈ diagnosticRows fname s.diagnostics :=
    List.mem_map_of_mem h
  simp [shaderRows, hsome, hrow]

theorem mem_effectRows {e : EffectReflection} {d : Diagnostic} (h : d ∈ e.diagnostics)
    (fname : String) : Row.line 0 (d.render fname) ∈ effectRows fname e := by
  have hsome : e.diagnostics.isEmpty = false :=
    List.isEmpty_eq_false_iff.2 (List.ne_nil_of_mem h)
  have hrow : Row.line 0 (d.render fname) ∈ diagnosticRows fname e.diagnostics :=
    List.mem_map_of_mem h
  simp [effectRows, hsome, hrow]

/-- The shaders of an effect have their say if the effect itself has no diagnostics. -/
theorem mem_effectRows_of_shader {e : EffectReflection} (hnone : e.diagnostics = [])
    {s : EffectShader} (hs : s ∈ e.shaders) {d : Diagnostic} (h : d ∈ s.shader.diagnostics)
    (fname : String) : Row.line 1 (d.render fname) ∈ effectRows fname e := by
  obtain ⟨number, hnumber, rfl⟩ := List.mem_iff_getElem.1 hs
  have hdeeper : Row.line 1 (d.render fname) ∈ effectShaderRows fname number e.shaders[number] :=
    List.mem_cons_of_mem _ (List.mem_map_of_mem (mem_shaderRows h fname))
  have hindexed : (e.shaders[number], number) ∈ e.shaders.zipIdx := by
    simp [List.mem_zipIdx_iff_getElem?]
  rw [effectRows, hnone, List.isEmpty_nil, if_pos rfl]
  refine List.mem_append_right _ (List.mem_append_right _ ?_)
  exact List.mem_flatMap.2 ⟨(e.shaders[number], number), hindexed, hdeeper⟩

theorem endsLine_heading (label fname : String) : Text.EndsLine (s!"{label}{fname}\n").toList :=
  Or.inr ⟨(label ++ fname).toList, by simp [toString_string]⟩

/-- A line row is a line of the report of a file too, below the heading. -/
theorem hasLine_below {heading : String} (hheading : Text.EndsLine heading.toList)
    {rows : List Row} {depth : Nat} {line : String} (h : Row.line depth line ∈ rows) :
    HasLine (heading ++ renderRows 1 rows).toList line := by
  rw [String.toList_append]
  exact (hasLine_renderRows h 1).append_left hheading

/-- **A report shows a diagnostic if there is one**, wherever in the reflection it is. -/
theorem isOk_eq_false_iff (fname : String) (r : Reflection) :
    r.isOk = false ↔
      ∃ d ∈ r.diagnostics, HasLine (renderFile fname r).toList (d.render fname) := by
  constructor
  · intro hfails
    have hsome : r.diagnostics ≠ [] := fun hnone => by
      rw [(Reflection.isOk_iff r).2 hnone] at hfails
      cases hfails
    cases r with
    | shader s =>
      obtain ⟨d, hd⟩ := List.exists_mem_of_ne_nil s.diagnostics hsome
      exact ⟨d, hd, hasLine_below (endsLine_heading "SHADER: " fname) (mem_shaderRows hd fname)⟩
    | effect e =>
      have hbelow {depth : Nat} {line : String} (h : Row.line depth line ∈ effectRows fname e) :
          HasLine (renderFile fname (.effect e)).toList line :=
        hasLine_below (endsLine_heading "EFFECT: " fname) h
      by_cases hnone : e.diagnostics = []
      · -- the renderer gets as far as the shaders
        obtain ⟨d, hd⟩ := List.exists_mem_of_ne_nil _ hsome
        have hshaders : d ∈ e.shaders.flatMap (·.shader.diagnostics) := by
          rwa [Reflection.diagnostics, hnone, List.nil_append] at hd
        obtain ⟨s, hs, hd'⟩ := List.mem_flatMap.1 hshaders
        exact ⟨d, hd, hbelow (mem_effectRows_of_shader hnone hs hd' fname)⟩
      · -- it stops before them, but has shown a diagnostic
        obtain ⟨d, hd⟩ := List.exists_mem_of_ne_nil _ hnone
        exact ⟨d, List.mem_append_left _ hd, hbelow (mem_effectRows hd fname)⟩
  · rintro ⟨d, hd, -⟩
    rw [← Bool.not_eq_true, Reflection.isOk_iff]
    exact List.ne_nil_of_mem hd

end Report

namespace CommandLine

/-! ## Files of a dump -/

/-- The part of the output about a file, given its bytes if it can be read. -/
def fileBlock (profile name : String) : Option (List UInt8) → String
  | none => s!" ... fopen('{name}') failed.\n"
  | some bytes => Report.renderFile name (Bytecode.read profile bytes)

/-- The file cannot be read, or its block shows a diagnostic: of the shader, of the bundle, or of a
shader in the bundle. -/
def Fails (profile name : String) : Option (List UInt8) → Prop
  | none => True
  | some bytes => ∃ d ∈ (Bytecode.read profile bytes).diagnostics,
      Report.HasLine (fileBlock profile name (some bytes)).toList (d.render name)

instance (profile name : String) (bytes? : Option (List UInt8)) :
    Decidable (Fails profile name bytes?) :=
  match bytes? with
  | none => isTrue trivial
  | some bytes =>
    decidable_of_iff ((Bytecode.read profile bytes).isOk = false) (Report.isOk_eq_false_iff name _)

/-- The block of a file hangs on its name and its bytes, and the verdict is what the block shows. -/
theorem fileReport_eq (profile name : String) (data : Except SystemError (List UInt8)) :
    fileReport profile name data =
      (fileBlock profile name data.toOption, !decide (Fails profile name data.toOption)) := by
  cases data with
  | error e => rfl
  | ok bytes =>
    refine Prod.ext rfl ?_
    have hshown := Report.isOk_eq_false_iff name (Bytecode.read profile bytes)
    by_cases hfails : Fails profile name (some bytes)
    · exact (hshown.2 hfails).trans (by simp [Except.toOption, hfails])
    · have hok : (Bytecode.read profile bytes).isOk = true :=
        by simpa using (not_congr hshown).2 hfails
      exact hok.trans (by simp [Except.toOption, hfails])

/-- One block for each file in turn. -/
def blocksText (profile : String) (files : List String) (fs : FileSystem) : String :=
  String.join (files.map fun name => fileBlock profile name (fs.read name).toOption)

/-- The banner, and one block for each file in turn. -/
def dumpText (profile : String) (files : List String) (fs : FileSystem) : String :=
  dumpBanner ++ blocksText profile files fs

/-- The files of a list that fail, in the order and as often as they are in it. -/
def failingFiles (profile : String) (files : List String) (fs : FileSystem) : List String :=
  files.filter fun name => Fails profile name (fs.read name).toOption

/-! ## The output as a whole -/

/-- The blocks are written as one text would be, as far as the output takes it.  The verdict on the
files is known if it takes all of it. -/
theorem writeReports_eq (profile : String) (files : List String) (fs : FileSystem) (out : Stream) :
    ∃ result, writeReports profile fs files out =
        (result, (out.write (Utf8.encode (blocksText profile files fs).toList)).2) ∧
      result.toOption =
        (out.write (Utf8.encode (blocksText profile files fs).toList)).1.toOption.map fun _ =>
          failingFiles profile files fs := by
  induction files generalizing out with
  | nil =>
    have hnothing : out.write (Utf8.encode (blocksText profile [] fs).toList) = (.ok (), out) :=
      out.write_nil
    rw [hnothing]
    exact ⟨.ok [], rfl, rfl⟩
  | cons name files ih =>
    have htext : blocksText profile (name :: files) fs =
        fileBlock profile name (fs.read name).toOption ++ blocksText profile files fs :=
      String.join_cons
    rw [writeReports, fileReport_eq, htext, String.toList_append, Utf8.encode_append,
      Stream.write_append]
    dsimp only
    rcases out.write (Utf8.encode (fileBlock profile name (fs.read name).toOption).toList) with
      ⟨reason | ⟨⟩, out⟩
    · exact ⟨_, rfl, rfl⟩
    · obtain ⟨result, hrest, hresult⟩ := ih out
      dsimp only
      rw [hrest]
      refine ⟨_, rfl, ?_⟩
      have hlisted : failingFiles profile (name :: files) fs =
          if !decide (Fails profile name (fs.read name).toOption) then failingFiles profile files fs
          else name :: failingFiles profile files fs := by
        rw [failingFiles, List.filter_cons]
        by_cases hfails : Fails profile name (fs.read name).toOption <;>
          simp [hfails, failingFiles]
      rw [hlisted, toOption_map, hresult, Option.map_map]
      rfl

/-- What the program writes is its text, as far as the output takes it. -/
theorem writeDump_eq (profile : String) (files : List String) (fs : FileSystem) (out : Stream) :
    ∃ result, writeDump ⟨profile, files⟩ fs out =
        (result, (out.write (Utf8.encode (dumpText profile files fs).toList)).2) ∧
      result.toOption =
        (out.write (Utf8.encode (dumpText profile files fs).toList)).1.toOption.map fun _ =>
          failingFiles profile files fs := by
  rw [writeDump, dumpText, String.toList_append, Utf8.encode_append, Stream.write_append]
  dsimp only
  rcases out.write (Utf8.encode dumpBanner.toList) with ⟨reason | ⟨⟩, out⟩
  · exact ⟨_, rfl, rfl⟩
  · exact writeReports_eq profile files fs out

/-- If the output does not take all of the text, nothing is said about the files, and the program
fails. -/
theorem runDump_of_write_eq_error {profile : String} {files : List String} {w : World}
    {reason : SystemError} {out : Stream}
    (h : w.out.write (Utf8.encode (dumpText profile files w.files).toList) =
      (.error reason, out)) :
    ∃ message : String, runDump ⟨profile, files⟩ w =
      (.failure,
        { w with out, err := (w.err.writeLines [s!"shader-testparse: {message}"]).2 }) := by
  obtain ⟨result, hwrite, hresult⟩ := writeDump_eq profile files w.files w.out
  rw [h] at hwrite hresult
  cases result with
  | ok failed => cases hresult
  | error message =>
    refine ⟨message, ?_⟩
    rw [runDump, hwrite]
    rfl

/-- **The dump treats each file on its own, and its end tells the truth**: what it puts out is one
block for each file in turn; what it says at the end is which files fail; and it succeeds if and
only if none does. -/
theorem runDump_fileByFile (profile : String) (files : List String) (fs : FileSystem) :
    ∃ ending w, runDump ⟨profile, files⟩ { files := fs } = (ending, w) ∧
      w.files = fs ∧
      w.out.written = Utf8.encode (dumpText profile files fs).toList ∧
      w.err.written =
        Stream.bytesOfLines ((failingFiles profile files fs).map fun name => s!"failed: {name}") ∧
      (ending.code = 0 ↔ failingFiles profile files fs = []) := by
  obtain ⟨result, hwrite, hresult⟩ := writeDump_eq profile files fs {}
  have hall : (({} : Stream).write (Utf8.encode (dumpText profile files fs).toList)) =
      (.ok (), { written := Utf8.encode (dumpText profile files fs).toList }) :=
    Prod.ext (if_pos rfl) rfl
  rw [hall] at hwrite hresult
  cases result with
  | error message => cases hresult
  | ok failed =>
    have hfailed : failed = failingFiles profile files fs := Option.some.inj hresult
    subst hfailed
    refine ⟨_, _, by rw [runDump, hwrite], rfl, rfl, ?_, ?_⟩
    · exact List.nil_append _
    · cases failingFiles profile files fs with
      | nil => exact iff_of_true rfl rfl
      | cons name names => exact iff_of_false Nat.one_ne_zero (List.cons_ne_nil name names)

end CommandLine
end ShaderKit
