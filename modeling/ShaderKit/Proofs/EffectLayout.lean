import ShaderKit.Bytecode.Effect

/-!
# The layout of an effect

What an effect is, without a reader: parameters, techniques with passes and states, textures and
shaders, each of them a row of fields, one behind the other.  Lists are as long as a word can count
(`Counted`), and what nobody looks at is a block of so many words (`Block`).  There is one shader
for each state that sets one (`EffectLayout.complete`).

Names are not among the fields.  They are stored anywhere in the file, at an offset from the start
of the string block, and may share their bytes or lie over other parts (`StoredName.IsIn`).  So a
file that an effect is laid out in (`EffectLayout.IsIn`) begins with the bytes of the effect, has
the names where they belong, and may go on as it likes.
-/

set_option autoImplicit false

namespace ShaderKit
namespace Bytecode

/-! ## Parts of a layout -/

/-- A list that is short enough for a word to count it. -/
structure Counted (α : Type) where
  items : List α
  fits : items.length < UInt32.size := by decide

namespace Counted

variable {α : Type}

/-- The number of items, as a word. -/
def count (l : Counted α) : UInt32 := .ofNat l.items.length

theorem toNat_count (l : Counted α) : l.count.toNat = l.items.length := by
  rw [count, UInt32.toNat_ofNat', Nat.mod_eq_of_lt l.fits]

/-- Any list that a word counts. -/
theorem exists_of_toNat_eq {w : UInt32} {items : List α} (h : items.length = w.toNat) :
    ∃ l : Counted α, l.items = items ∧ l.count = w := by
  refine ⟨⟨items, h ▸ w.toNat_lt_size⟩, rfl, ?_⟩
  rw [count, h, UInt32.ofNat_toNat]

end Counted

/-- As many bytes as there are in a number of words, whatever they are. -/
structure Block (words : Nat) where
  bytes : List UInt8
  length_eq : bytes.length = 4 * words := by decide

/-- Any bytes that make up some blocks. -/
theorem exists_blocks {words n : Nat} {bytes : List UInt8} (h : bytes.length = 4 * (n * words)) :
    ∃ blocks : List (Block words), blocks.length = n ∧ blocks.flatMap (·.bytes) = bytes := by
  induction n generalizing bytes with
  | zero =>
    have hnil : bytes = [] := List.eq_nil_of_length_eq_zero (by omega)
    exact ⟨[], rfl, hnil.symm⟩
  | succ n ih =>
    rw [Nat.succ_mul n words] at h
    obtain ⟨blocks, hlength, hblocks⟩ :=
      @ih (bytes.drop (4 * words)) (by rw [List.length_drop]; omega)
    have hfirst : (bytes.take (4 * words)).length = 4 * words := by
      rw [List.length_take]
      omega
    refine ⟨⟨bytes.take (4 * words), hfirst⟩ :: blocks, by rw [List.length_cons, hlength], ?_⟩
    rw [List.flatMap_cons, hblocks, List.take_append_drop]

/-- Blocks of one size take up as many bytes as their number says. -/
theorem length_flatMap_blocks {words : Nat} (blocks : List (Block words)) :
    (blocks.flatMap (·.bytes)).length = 4 * (blocks.length * words) := by
  induction blocks with
  | nil => simp
  | cons b blocks ih =>
    rw [List.flatMap_cons, List.length_append, ih, b.length_eq, List.length_cons,
      Nat.succ_mul blocks.length words]
    omega

/-- A name: where it is stored, and its bytes. -/
structure StoredName where
  offset : UInt32
  text : Counted UInt8

namespace StoredName

/-- What is stored: the number of bytes, and then the bytes. -/
def bytes (n : StoredName) : List UInt8 := bytesOfWord n.text.count ++ n.text.items

/-- The name is stored in a file. -/
def IsIn (n : StoredName) (file : List UInt8) : Prop :=
  n.bytes <+: file.drop (stringsStart + n.offset.toNat)

instance (n : StoredName) (file : List UInt8) : Decidable (n.IsIn file) :=
  inferInstanceAs (Decidable (_ <+: _))

/-- The name as it is to be read: decoded, and without zero bytes. -/
def name (n : StoredName) : String := nameOfBytes n.text.items

end StoredName

/-- Annotations are two words each, and are not looked at. -/
abbrev Annotations := Counted (Block 2)

/-- The bytes of annotations. -/
def Annotations.bytes (a : Annotations) : List UInt8 := a.items.flatMap (·.bytes)

/-- A parameter: a value of three words, which nobody looks at, and its annotations. -/
structure ParameterLayout where
  value : Block 3
  annotations : Annotations

/-- The fields of a parameter, in the order in which they stand; the annotations are counted by the
field in front of them. -/
def ParameterLayout.fields (p : ParameterLayout) : List (List UInt8) :=
  [p.value.bytes, bytesOfWord p.annotations.count, p.annotations.bytes]

/-- A state of a pass: what it sets, and the value, of which nothing is read. -/
structure StateLayout where
  type : UInt32
  value : Block 3

/-- The fields of a state. -/
def StateLayout.fields (s : StateLayout) : List (List UInt8) := [bytesOfWord s.type, s.value.bytes]

/-- A pass.  Of the name only the place is stored among the fields. -/
structure PassLayout where
  name : StoredName
  annotations : Annotations
  states : Counted StateLayout

namespace PassLayout

/-- The fields of a pass.  Both counts stand in front of what they count. -/
def fields (p : PassLayout) : List (List UInt8) :=
  bytesOfWord p.name.offset :: bytesOfWord p.annotations.count :: bytesOfWord p.states.count ::
    p.annotations.bytes :: p.states.items.flatMap (·.fields)

/-- What is to be read from the pass: its name, and what its states set. -/
def pass (p : PassLayout) : Pass := ⟨p.name.name, p.states.items.map (·.type)⟩

end PassLayout

/-- A technique.  Its passes stand behind its annotations, one behind the other. -/
structure TechniqueLayout where
  name : StoredName
  annotations : Annotations
  passes : Counted PassLayout

namespace TechniqueLayout

/-- The fields of a technique, those of its passes among them. -/
def fields (t : TechniqueLayout) : List (List UInt8) :=
  bytesOfWord t.name.offset :: bytesOfWord t.annotations.count :: bytesOfWord t.passes.count ::
    t.annotations.bytes :: t.passes.items.flatMap (·.fields)

/-- What is to be read from the technique. -/
def technique (t : TechniqueLayout) : Technique := ⟨t.name.name, t.passes.items.map (·.pass)⟩

/-- The names of the technique and of its passes. -/
def names (t : TechniqueLayout) : List StoredName := t.name :: t.passes.items.map (·.name)

end TechniqueLayout

/-- A texture.  Its name is filled up to whole words, with as few bytes as possible. -/
structure TextureLayout where
  parameter : UInt32
  name : Counted UInt8
  padding : List UInt8
  padding_lt : padding.length < 4 := by decide
  padded : (name.items.length + padding.length) % 4 = 0 := by decide

namespace TextureLayout

/-- The fields of a texture.  The padding is one of its own, as it is read on its own. -/
def fields (t : TextureLayout) : List (List UInt8) :=
  [bytesOfWord t.parameter, bytesOfWord t.name.count, t.name.items, t.padding]

/-- What is to be read from the texture; the name stands in the texture itself. -/
def texture (t : TextureLayout) : Texture := ⟨nameOfBytes t.name.items, t.parameter⟩

end TextureLayout

/-- A shader: the place where it is used, and its bytecode.  It is not filled up. -/
structure ShaderLayout where
  technique : UInt32
  pass : UInt32
  reserved : Block 3
  code : Counted UInt8

namespace ShaderLayout

/-- The fields of a shader. -/
def fields (s : ShaderLayout) : List (List UInt8) :=
  [bytesOfWord s.technique, bytesOfWord s.pass, s.reserved.bytes, bytesOfWord s.code.count,
    s.code.items]

/-- What is to be read from the shader: its place, and whatever its bytecode is read as. -/
def shader (profile : String) (s : ShaderLayout) : EffectShader :=
  ⟨s.technique, s.pass, readShader profile s.code.items⟩

end ShaderLayout

/-! ## Effects -/

/-- The states of techniques, in the order in which they stand. -/
def statesOf (techniques : List TechniqueLayout) : List StateLayout :=
  techniques.flatMap fun t => t.passes.items.flatMap (·.states.items)

/-- An effect.  How many shaders there are is counted nowhere: it is the number of states that set
one, those with the types `0x92` and `0x93` (`complete`). -/
structure EffectLayout where
  strings : Counted UInt8
  reserved : Block 2
  parameters : Counted ParameterLayout
  techniques : Counted TechniqueLayout
  objects : UInt32
  textures : Counted TextureLayout
  shaders : List ShaderLayout
  complete : shaders.length =
    (statesOf techniques.items).countP (fun s => s.type = 0x92 || s.type = 0x93) := by rfl

namespace EffectLayout

variable (e : EffectLayout)

/-- The fields behind the string block. -/
def parts : List (List UInt8) :=
  bytesOfWord e.parameters.count :: bytesOfWord e.techniques.count :: e.reserved.bytes ::
    (e.parameters.items.flatMap (·.fields) ++ (e.techniques.items.flatMap (·.fields) ++
      (bytesOfWord e.textures.count :: bytesOfWord e.objects ::
        (e.textures.items.flatMap (·.fields) ++ e.shaders.flatMap (·.fields)))))

/-- The fields behind the mark. -/
def fields : List (List UInt8) :=
  bytesOfWord e.strings.count :: e.strings.items :: e.parts

/-- The bytes of the effect, from the mark on. -/
def bytes : List UInt8 := effectMark ++ e.fields.flatten

/-- The names of all techniques and passes. -/
def names : List StoredName := e.techniques.items.flatMap (·.names)

/-- The effect is laid out in a file, whatever follows it there. -/
structure IsIn (file : List UInt8) : Prop where
  starts : e.bytes <+: file
  names : ∀ n ∈ e.names, n.IsIn file

/-- What is to be read from the effect. -/
def reflection (profile : String) : EffectReflection where
  profile
  techniques := e.techniques.items.map (·.technique)
  textures := e.textures.items.map (·.texture)
  shaders := e.shaders.map (·.shader profile)

end EffectLayout
end Bytecode
end ShaderKit
