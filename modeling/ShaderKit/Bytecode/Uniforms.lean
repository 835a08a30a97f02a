import ShaderKit.Bytecode.Statement

/-!
# Uniforms

Which constant registers have to be set from outside.  The starting point is the registers that
instructions refer to, each once, in the order of their files and numbers; one relative reference is
enough to make a register count as relatively addressed (`mergeReferences`).

A register then becomes a uniform in one of four ways (`uniform?`):

* **An array with a name.**  The constant table has it in a row of registers, or at all, if it is
  addressed relatively: the uniform is what the table says.
* **Nothing.**  The bytecode defines the register, and it is not addressed relatively.
* **A constant array.**  The bytecode defines it, and it is addressed relatively: the uniform is the
  whole run of defined registers around it.
* **A single register**, with a name if the table has one.

Several registers may lead to the same first register.  The list keeps one uniform for each, in
order; of two, the one that came first stays (`insertUniform`).
-/

set_option autoImplicit false

namespace ShaderKit
namespace Bytecode

namespace ConstantRegister

/-- The order of the registers: by file, and then by number. -/
def before (r s : ConstantRegister) : Bool :=
  r.type.rank < s.type.rank || (r.type = s.type && r.number < s.number)

end ConstantRegister

/-! ## Registers that are referred to -/

/-- Adds a reference to a list in order; a register that is there already becomes relative if either
reference is. -/
def insertReference (r : Reference) : List Reference → List Reference
  | [] => [r]
  | s :: l =>
    if r.register = s.register then ⟨s.register, s.relative || r.relative⟩ :: l
    else if r.register.before s.register then r :: s :: l
    else s :: insertReference r l

/-- Each register that is referred to, once and in order. -/
def mergeReferences (references : List Reference) : List Reference :=
  references.foldl (fun l r => insertReference r l) []

/-! ## Runs of defined registers -/

/-- The number before a run of members that ends below `n`, as the first number of that run. -/
def runStart (member : Nat → Bool) : Nat → Nat
  | 0 => 0
  | n + 1 => if member n then runStart member n else n + 1

/-- The number behind a run of members that begins at `n`, looking at `fuel` numbers at most. -/
def runEnd (member : Nat → Bool) : (fuel : Nat) → (n : Nat) → Nat
  | 0, n => n
  | fuel + 1, n => if member n then runEnd member fuel (n + 1) else n

/-! ## Uniforms -/

/-- The set of a constant table that a register file is. -/
def registerSet : ConstantType → RegisterSet
  | .float => .float4
  | .int => .int4
  | .bool => .bool

/-- Whether the bytecode defines a register. -/
def isDefined (constants : List Constant) (r : ConstantRegister) : Bool :=
  constants.any fun c => c.value.type = r.type && c.index = r.number

/-- The uniform that a reference leads to. -/
def uniform? (constants : List Constant) (table : Option ConstantTable) (r : Reference) :
    Option Uniform :=
  let type := r.register.type
  let number := r.register.number
  let entry := table.bind (·.find? (registerSet type) number)
  let defined := isDefined constants r.register
  let single : Option Uniform :=
    if defined then
      if r.relative then
        let member (n : Nat) := isDefined constants ⟨type, n⟩
        let start := runStart member number
        let count := runEnd member constants.length (number + 1) - start
        some { index := start, type, arrayCount := if count > 1 then count else 0,
               constant := true, name := none }
      else none
    else
      some { index := number, type, arrayCount := 0, constant := false, name := entry.map (·.name) }
  match entry with
  | some e =>
    if r.relative || e.registerCount > 1 then
      some { index := e.registerIndex, type, arrayCount := e.registerCount, constant := defined,
             name := some e.name }
    else single
  | none => single

/-- The register that a uniform begins at. -/
def Uniform.register (u : Uniform) : ConstantRegister := ⟨u.type, u.index⟩

/-- Adds a uniform to a list in order, unless there is one that begins at the same register. -/
def insertUniform (u : Uniform) : List Uniform → List Uniform
  | [] => [u]
  | v :: l =>
    if u.register = v.register then v :: l
    else if u.register.before v.register then u :: v :: l
    else v :: insertUniform u l

/-- The uniforms of a shader. -/
def uniforms (references : List Reference) (constants : List Constant)
    (table : Option ConstantTable) : List Uniform :=
  ((mergeReferences references).filterMap (uniform? constants table)).foldl
    (fun l u => insertUniform u l) []

end Bytecode
end ShaderKit
