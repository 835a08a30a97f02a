import ShaderKit.Bytecode.Shader
import ShaderKit.Proofs.WordBits

/-!
# Token streams

What a shader is, without a reader: a version word, items, the end word, and whatever follows it.
An item is told apart by the low half of its first word (`Item.kind`), announces the number of its
further words in bits that depend on its kind (`Item.announced`), and means what its bits say.

A `TokenStream` is a shader that is in order: its version is one of six, its items have the words
that they announce, its declarations and tables can be understood.  Nothing else is asked of it, so
there is one for any such choice of version, items and further words, and `TokenStream.reflection`
says what is to be read from it.
-/

set_option autoImplicit false

namespace ShaderKit
namespace Bytecode

/-! ## Versions -/

namespace Version

/-- The versions of shaders that are supported. -/
structure IsSupported (v : Version) : Prop where
  kind : v.kind = .vertex ∨ v.kind = .pixel
  model : (v.major, v.minor) ∈ [(2, 0), (2, 1), (3, 0)]

/-- The word that a shader begins with. -/
def word (v : Version) : UInt32 :=
  .ofNat ((if v.kind = .vertex then 0xFFFE else 0xFFFF) * 2 ^ 16 + v.major * 2 ^ 8 + v.minor)

end Version

/-! ## Operands -/

namespace Reference

/-- The constant register that a word refers to, if it is an operand at all. -/
def ofBits? (w : UInt32) : Option Reference :=
  if bits w 31 1 = 1 then
    (Register.ofBits w).constant?.map fun register => ⟨register, (Register.ofBits w).relative⟩
  else none

end Reference

namespace ConstantValue

/-- The value of a type that words spell; words that are not there are zero. -/
def ofWords (type : ConstantType) (words : List UInt32) : ConstantValue :=
  match type with
  | .float => .float ⟨⟨words.getD 0 0⟩, ⟨words.getD 1 0⟩, ⟨words.getD 2 0⟩, ⟨words.getD 3 0⟩⟩
  | .int => .int ⟨(words.getD 0 0).toInt32, (words.getD 1 0).toInt32, (words.getD 2 0).toInt32,
      (words.getD 3 0).toInt32⟩
  | .bool => .bool (words.getD 0 0 ≠ 0)

end ConstantValue

/-! ## Items -/

/-- The kinds of items. -/
inductive ItemKind where
  | comment
  | declaration
  | definition (type : ConstantType)
  | instruction
  deriving DecidableEq, Repr

namespace Item

/-- The low half of the first word. -/
def code (i : Item) : Nat := bits i.token 0 16

/-- What an item is: its code tells, and everything that is not listed is an instruction. -/
def kind (i : Item) : ItemKind :=
  match i.code with
  | 0xFFFE => .comment
  | 0x1F => .declaration
  | 0x51 => .definition .float
  | 0x30 => .definition .int
  | 0x2F => .definition .bool
  | _ => .instruction

/-- The number of words that the first word announces. -/
def announced (i : Item) : Nat :=
  if i.kind = .comment then bits i.token 16 15 else bits i.token 24 4

/-- The item does not end the shader, and it has the words that it announces. -/
structure IsShaped (i : Item) : Prop where
  notEnd : i.token ≠ 0x0000FFFF
  length : i.payload.length = i.announced

instance (i : Item) : Decidable i.IsShaped :=
  decidable_of_iff (i.token ≠ 0x0000FFFF ∧ i.payload.length = i.announced)
    ⟨fun h => ⟨h.1, h.2⟩, fun h => ⟨h.notEnd, h.length⟩⟩

/-- What is asked of an item: a comment that is marked as a table holds one, and a declaration has a
usage or a type of sampler that is known if its register needs one. -/
structure IsValid (v : Version) (i : Item) : Prop where
  table : ∀ words, i.kind = .comment → i.payload = tableMark :: words →
    ∃ t, ConstantTable.parse (bytesOfWords words) = .ok t
  operands : i.kind = .declaration → 2 ≤ i.payload.length
  usage : ∀ declared destination rest, i.kind = .declaration →
    i.payload = declared :: destination :: rest → (Register.ofBits destination).file = 1 →
    v.isLegacyPixel = false → bits declared 0 5 < 14
  samplerType : ∀ declared destination rest, i.kind = .declaration →
    i.payload = declared :: destination :: rest → (Register.ofBits destination).file = 10 →
    bits declared 27 4 ∈ [2, 3, 4]

/-- The attribute that an item declares.  In a pixel shader before version three the registers `v#`
are colors and the registers `t#` texture coordinates, with the number of the register. -/
def attribute? (v : Version) (i : Item) : Option Attribute :=
  match i.kind, i.payload with
  | .declaration, declared :: destination :: _ =>
    let r := Register.ofBits destination
    if v.isLegacyPixel then
      match r.file with
      | 1 => some { usage := .color, index := r.number }
      | 3 => some { usage := .texCoord, index := r.number }
      | _ => none
    else if r.file = 1 then
      (Usage.ofNumber? (bits declared 0 5)).map fun usage =>
        { usage, index := bits declared 16 4 }
    else none
  | _, _ => none

/-- The sampler that an item declares: its register and its type. -/
def sampler? (i : Item) : Option (Nat × SamplerType) :=
  match i.kind, i.payload with
  | .declaration, declared :: destination :: _ =>
    let r := Register.ofBits destination
    if r.file = 10 then (samplerType? (bits declared 27 4)).map fun type => (r.number, type)
    else none
  | _, _ => none

/-- The constant that an item defines. -/
def constant? (i : Item) : Option Constant :=
  match i.kind, i.payload with
  | .definition type, destination :: words =>
    (Register.ofBits destination).constant?.map fun register =>
      ⟨register.number, .ofWords type words⟩
  | _, _ => none

/-- The constant table that an item holds. -/
def table? (i : Item) : Option ConstantTable :=
  match i.kind, i.payload with
  | .comment, mark :: words =>
    if mark = tableMark then (ConstantTable.parse (bytesOfWords words)).toOption else none
  | _, _ => none

/-- The constant registers that an item refers to. -/
def references (i : Item) : List Reference :=
  if i.kind = .instruction then i.payload.filterMap Reference.ofBits? else []

variable {i : Item}

theorem attribute?_eq_none (h : i.kind ≠ .declaration) (v : Version) : i.attribute? v = none := by
  rw [attribute?]
  split
  · exact absurd ‹_› h
  · rfl

theorem sampler?_eq_none (h : i.kind ≠ .declaration) : i.sampler? = none := by
  rw [sampler?]
  split
  · exact absurd ‹_› h
  · rfl

theorem constant?_eq_none (h : ∀ type, i.kind ≠ .definition type) : i.constant? = none := by
  rw [constant?]
  split
  · exact absurd ‹_› (h _)
  · rfl

theorem table?_eq_none (h : i.kind ≠ .comment) : i.table? = none := by
  rw [table?]
  split
  · exact absurd ‹_› h
  · rfl

theorem references_eq_nil (h : i.kind ≠ .instruction) : i.references = [] := if_neg h

/-- No register is both an input and a sampler. -/
theorem sampler?_eq_none_of_attribute? {v : Version} {a : Attribute}
    (h : i.attribute? v = some a) : i.sampler? = none := by
  rw [attribute?] at h
  split at h
  · rename_i declared destination rest hkind hpayload
    have hfile : (Register.ofBits destination).file ≠ 10 := by
      intro hsampler
      simp [hsampler] at h
    simp [sampler?, hkind, hpayload, hfile]
  · cases h

end Item

/-! ## Streams -/

/-- A shader that is in order. -/
structure TokenStream where
  version : Version
  items : List Item
  /-- The words behind the end word. -/
  after : List UInt32
  supported : version.IsSupported
  shaped : ∀ i ∈ items, i.IsShaped
  valid : ∀ i ∈ items, i.IsValid version

namespace TokenStream

variable (s : TokenStream)

/-- The words of the stream: its version, its items, the word that ends them, and what comes
after. -/
def words : List UInt32 := s.version.word :: (wordsOfItems s.items ++ 0x0000FFFF :: s.after)

/-- The words, the low byte of each first. -/
def bytes : List UInt8 := bytesOfWords s.words

/-- The table that counts is the last one. -/
def table? : Option ConstantTable := (s.items.filterMap (·.table?)).getLast?

/-- The constant registers that are read, in the order of the instructions. -/
def references : List Reference := s.items.flatMap (·.references)

/-- The constants that are defined, in the order of their definitions. -/
def constants : List Constant := s.items.filterMap (·.constant?)

/-- The samplers that are declared, with the names that the table has for them. -/
def samplers : List Sampler :=
  (s.items.filterMap (·.sampler?)).map fun (index, type) =>
    { index, type, name := (s.table?.bind (·.find? .sampler index)).map (·.name) }

/-- What is to be read from a shader. -/
def reflection (profile : String) : ShaderReflection where
  profile
  kind := s.version.kind
  major := s.version.major
  minor := s.version.minor
  instructionCount := s.items.countP fun i => i.kind = .instruction
  attributes := s.items.filterMap (·.attribute? s.version)
  constants := s.constants
  uniforms := uniforms s.references s.constants s.table?
  samplers := s.samplers

end TokenStream
end Bytecode
end ShaderKit
