import ShaderKit.Bytecode.Reflection
import ShaderKit.Hexadecimal

/-!
# Reports

A reflection as text for people to read.  A report is first a list of rows, each at a depth of its
own; only `Row.render` knows how depth becomes blanks.  So a report can be put inside another one by
moving its rows deeper (`Row.deeper`), which is how the shaders of an effect get into the report of
the effect.

Empty rows have no depth, and stay empty wherever they are put.  The text of a program is a block:
it is copied as it stands, and each of its lines is put at the depth of the block.
-/

set_option autoImplicit false

namespace ShaderKit
namespace Report

open Bytecode

/-! ## Rows -/

/-- A row of a report. -/
inductive Row where
  | line (depth : Nat) (text : String)
  | blank
  /-- Lines of a text from elsewhere. -/
  | block (depth : Nat) (text : String)
  deriving DecidableEq, Repr

/-- The blanks in front of a row. -/
def indentation (depth : Nat) : List Char := List.replicate (4 * depth) ' '

/-- A text with blanks after each of its line ends. -/
def indentAfterBreaks (depth : Nat) (text : List Char) : List Char :=
  text.flatMap fun c => if c = '\n' then '\n' :: indentation depth else [c]

namespace Row

/-- The row, deeper by a number of steps. -/
def deeper (steps : Nat) : Row → Row
  | line depth text => line (depth + steps) text
  | blank => blank
  | block depth text => block (depth + steps) text

/-- The text of a row, its line end included. -/
def render : Row → List Char
  | line depth text => indentation depth ++ text.toList ++ ['\n']
  | blank => ['\n']
  | block depth text => indentation depth ++ indentAfterBreaks depth text.toList ++ ['\n']

end Row

/-- The text of some rows, all of them deeper by a number of steps. -/
def renderRows (steps : Nat) (rows : List Row) : String :=
  String.ofList (rows.flatMap fun r => (r.deeper steps).render)

/-! ## Shaders -/

/-- A section: its label, and a row for each entry, one step deeper. -/
def sectionRows {α : Type} (label : String) (entry : α → String) : List α → List Row
  | [] => [.line 0 s!"{label}: (none.)"]
  | items => .line 0 s!"{label}:" :: items.map fun a => .line 1 s!"* {entry a}"

/-- A name behind an entry, if there is one. -/
def nameNote : Option String → String
  | some name => s!" (\"{name}\")"
  | none => ""

/-- The entry of an attribute.  The index is left out if it is the first. -/
def attributeEntry (a : Attribute) : String :=
  let index := if a.index = 0 then "" else toString a.index
  s!"{a.usage.name}{index}{nameNote a.name}"

/-- The value of a constant: four numbers, or a word. -/
def valueText : ConstantValue → String
  | .float v => s!"{v.x.fixed} {v.y.fixed} {v.z.fixed} {v.w.fixed}"
  | .int v => s!"{v.x.toInt} {v.y.toInt} {v.z.toInt} {v.w.toInt}"
  | .bool b => if b then "true" else "false"

/-- The entry of a constant. -/
def constantEntry (c : Constant) : String :=
  s!"{c.index}: {c.value.type.name} ({valueText c.value})"

/-- The entry of a uniform. -/
def uniformEntry (u : Uniform) : String :=
  let constant := if u.constant then "const " else ""
  let array := if u.arrayCount > 0 then s!"array[{u.arrayCount}] " else ""
  s!"{u.index}: {constant}{array}{u.type.name}{nameNote u.name}"

/-- The entry of a sampler. -/
def samplerEntry (s : Sampler) : String := s!"{s.index}: {s.type.name}{nameNote s.name}"

/-- The rows of diagnostics; `fname` stands for a file that is not known. -/
def diagnosticRows (fname : String) (ds : List Diagnostic) : List Row :=
  ds.map fun d => .line 0 (d.render fname)

/-- The rows of a program text, under a heading. -/
def outputRows : Option String → List Row
  | some text => [.line 0 "OUTPUT:", .block 1 text]
  | none => []

/-- The rows about a shader that was read without diagnostics. -/
def contentRows (s : ShaderReflection) : List Row :=
  [.line 0 s!"SHADER TYPE: {s.kind.name}",
   .line 0 s!"VERSION: {s.major}.{s.minor}",
   .line 0 s!"INSTRUCTION COUNT: {s.instructionCount}"] ++
  sectionRows "ATTRIBUTES" attributeEntry s.attributes ++
  sectionRows "CONSTANTS" constantEntry s.constants ++
  sectionRows "UNIFORMS" uniformEntry s.uniforms ++
  sectionRows "SAMPLERS" samplerEntry s.samplers ++
  outputRows s.output

/-- The rows of a shader. -/
def shaderRows (fname : String) (s : ShaderReflection) : List Row :=
  [.line 0 s!"PROFILE: {s.profile}"] ++
  (if s.diagnostics.isEmpty then contentRows s else diagnosticRows fname s.diagnostics) ++
  [.blank, .blank]

/-! ## Effects -/

/-- The rows of a pass: its name, and the types of its states. -/
def passRows (number : Nat) (p : Pass) : List Row :=
  .line 1 s!"PASS #{number} ('{p.name}'):" ::
    p.states.map fun type => .line 2 s!"STATE 0x{Hexadecimal.digits type.toNat}"

/-- The rows of a technique, those of its passes among them. -/
def techniqueRows (number : Nat) (t : Technique) : List Row :=
  .line 0 s!"TECHNIQUE #{number} ('{t.name}'):" ::
    (t.passes.zipIdx.flatMap fun (p, i) => passRows i p) ++ [.blank]

/-- The row of a texture. -/
def textureRow (number : Nat) (t : Texture) : Row :=
  .line 0 s!"TEXTURE #{number} ('{t.name}'): {t.parameter.toNat}"

/-- The rows of a shader in an effect: where it is used, and its own rows one step deeper. -/
def effectShaderRows (fname : String) (number : Nat) (s : EffectShader) : List Row :=
  .line 0 s!"SHADER #{number}: technique {s.technique.toNat}, pass {s.pass.toNat}" ::
    (shaderRows fname s.shader).map (Row.deeper 1)

/-- The rows of an effect. -/
def effectRows (fname : String) (e : EffectReflection) : List Row :=
  [.line 0 s!"PROFILE: {e.profile}", .blank] ++
  if e.diagnostics.isEmpty then
    (e.techniques.zipIdx.flatMap fun (t, i) => techniqueRows i t) ++
    (e.textures.zipIdx.map fun (t, i) => textureRow i t) ++
    [.blank] ++
    (e.shaders.zipIdx.flatMap fun (s, i) => effectShaderRows fname i s)
  else diagnosticRows fname e.diagnostics

/-! ## Whole reports -/

/-- The report of a shader, at an indentation. -/
def renderShader (fname : String) (s : ShaderReflection) (indent : Nat) : String :=
  renderRows indent (shaderRows fname s)

/-- The report of an effect, at an indentation. -/
def renderEffect (fname : String) (e : EffectReflection) (indent : Nat) : String :=
  renderRows indent (effectRows fname e)

/-- The report of a file: a heading, and one step deeper what was read. -/
def renderFile (fname : String) : Reflection → String
  | .shader s => s!"SHADER: {fname}\n" ++ renderShader fname s 1
  | .effect e => s!"EFFECT: {fname}\n" ++ renderEffect fname e 1

end Report
end ShaderKit
