import ShaderKit.Proofs.UniformCover

/-!
# Which registers ask for a uniform

A register that an instruction refers to asks for a uniform if the bytecode does not define it, or
if it is addressed relatively.  A uniform that the constant table has no row of registers for comes
from such a register (`LeadsTo.asked_or_spans`).

A row of registers is different.  It is a uniform as soon as an instruction refers to any of its
registers, by whatever address, defined or not (`exists_entryUniform`).  So a matrix of which all
registers are defined, and that nobody addresses relatively, is a uniform all the same, although no
register asks for it.
-/

set_option autoImplicit false

namespace ShaderKit
namespace Bytecode

/-- The uniform is the row of registers that an entry of a constant table names. -/
structure Uniform.IsRowOf (u : Uniform) (e : TableEntry) : Prop where
  set : e.registerSet = registerSet u.type
  index : u.index = e.registerIndex
  count : u.arrayCount = e.registerCount
  name : u.name = some e.name

section

variable {constants : List Constant} {table : Option ConstantTable}

theorem mem_of_entryFor? {r : ConstantRegister} {e : TableEntry}
    (h : entryFor? table r = some e) : ∃ t ∈ table, e ∈ t.constants := by
  obtain ⟨t, ht, hfind⟩ := Option.bind_eq_some_iff.1 h
  rw [ConstantTable.find?] at hfind
  exact ⟨t, ht, List.mem_of_find?_eq_some hfind⟩

theorem entryUniform_isRowOf {r s : ConstantRegister} {e : TableEntry}
    (hentry : entryFor? table s = some e) (htype : r.type = s.type) :
    (entryUniform constants r e).IsRowOf e := by
  obtain ⟨hset, -, -⟩ := TableEntry.covers_iff.1 (covers_of_entryFor? hentry)
  exact ⟨by rw [hset, ← htype]; rfl, rfl, rfl, rfl⟩

/-- **A uniform comes from a register that asks for one**, or it is flagged and is a row of several
registers in the table. -/
theorem LeadsTo.asked_or_spans {r : Reference} {u : Uniform} (h : LeadsTo constants table r u) :
    isDefined constants r.register = false ∨ r.relative = true ∨
      u.constant = true ∧ ∃ e, (∃ t ∈ table, e ∈ t.constants) ∧ 1 < e.registerCount ∧
        u.IsRowOf e := by
  cases h with
  | @entry e hentry hspan =>
    rcases hspan with hrelative | hcount
    · exact .inr (.inl hrelative)
    · cases hdefined : isDefined constants r.register with
      | false => exact .inl rfl
      | true =>
        exact .inr (.inr ⟨hdefined, e, mem_of_entryFor? hentry, hcount,
          entryUniform_isRowOf hentry rfl⟩)
  | run hnone hdefined hrelative => exact .inr (.inl hrelative)
  | single hundefined halone => exact .inl hundefined

end

/-- **Which registers ask for uniforms.**  Every uniform of a shader that is read covers a register
that an instruction refers to and that is not defined, or is addressed relatively, with one
exception: a row of several registers in the constant table, flagged as a constant.  Such a row is a
uniform for any register of it that an instruction refers to, and so is any entry that is addressed
relatively, if the entries of the table are apart. -/
theorem readShader_demand (profile : String) (bytes : List UInt8)
    (haccepted : (readShader profile bytes).diagnostics = []) :
    (∃ s : TokenStream, s.bytes = bytes) ∧
      ∀ s : TokenStream, s.bytes = bytes →
        (∀ u ∈ (readShader profile bytes).uniforms,
          (∃ r, s.Refers r ∧ u.Covers r ∧
            (¬ (readShader profile bytes).Defines r ∨ AddressesRelatively s.references r)) ∨
          u.constant = true ∧ ∃ e, (∃ t ∈ s.table?, e ∈ t.constants) ∧ 1 < e.registerCount ∧
            u.IsRowOf e) ∧
        ((∀ t ∈ s.table?, t.IsDisjoint) → ∀ r, s.Refers r → ∀ e, entryFor? s.table? r = some e →
          1 < e.registerCount ∨ AddressesRelatively s.references r →
          ∃ u ∈ (readShader profile bytes).uniforms, u.IsRowOf e ∧ u.Covers r) := by
  obtain ⟨hprofile, hstream⟩ := exists_stream_of_diagnostics_eq_nil haccepted
  refine ⟨hstream, ?_⟩
  rintro s rfl
  rw [readShader_bytes hprofile]
  refine ⟨fun u hu => ?_, ?_⟩
  · obtain ⟨r, hr, hlead, -⟩ := exists_first_of_mem_uniforms hu
    have hleads := leadsTo_of_uniform? hlead
    have hrefers : s.Refers r.register := exists_mem_mergeReferences_iff.1 ⟨r, hr, rfl⟩
    rcases hleads.asked_or_spans with hundefined | hrelative | hrow
    · have hnot : ¬ (s.reflection profile).Defines r.register := by
        rw [ShaderReflection.defines_iff, Bool.not_eq_true]
        exact hundefined
      exact .inl ⟨r.register, hrefers, hleads.covers, .inl hnot⟩
    · have haddressed : AddressesRelatively s.references r.register :=
        addressesRelatively_mergeReferences.1 ⟨r, hr, rfl, hrelative⟩
      exact .inl ⟨r.register, hrefers, hleads.covers, .inr haddressed⟩
    · exact .inr hrow
  · intro hdisjoint r hrefers e hentry hspan
    -- some merged reference to the register shows why its entry is a uniform
    obtain ⟨ref, href, rfl, hspan'⟩ : ∃ ref ∈ mergeReferences s.references, ref.register = r ∧
        (ref.relative = true ∨ 1 < e.registerCount) := by
      rcases hspan with hcount | haddressed
      · obtain ⟨ref, href, hregister⟩ := exists_mem_mergeReferences_iff.2 hrefers
        exact ⟨ref, href, hregister, .inr hcount⟩
      · obtain ⟨ref, href, hregister, hrelative⟩ :=
          addressesRelatively_mergeReferences.2 haddressed
        exact ⟨ref, href, hregister, .inl hrelative⟩
    obtain ⟨r', hmem, hcovers⟩ : ∃ r', entryUniform s.constants r' e ∈
        uniforms s.references s.constants s.table? ∧
          (entryUniform s.constants r' e).Covers ref.register :=
      exists_entryUniform hdisjoint href hentry hspan'
    exact ⟨_, hmem, entryUniform_isRowOf hentry hcovers.1, hcovers⟩

/-- A vertex shader with a table of one matrix in `c0` and `c1`, which defines both of them, and
moves `c0`. -/
def definedMatrixStream : TokenStream where
  version := ⟨.vertex, 2, 0⟩
  items :=
    [⟨0x000EFFFE, [tableMark, 28, 0, 0xFFFE0200, 1, 28, 0, 0, 48, 2, 2, 0, 0, 0x6D]⟩,
     ⟨0x05000051, [0xA00F0000, 0x3F800000, 0, 0, 0]⟩,
     ⟨0x05000051, [0xA00F0001, 0x3F800000, 0, 0, 0]⟩,
     ⟨0x02000001, [0x800F0000, 0xA0E40000]⟩]
  after := []
  supported := matrixStream.supported
  shaped := by decide
  valid := by decide

theorem readShader_definedMatrixStream :
    readShader "glsl" definedMatrixStream.bytes = definedMatrixStream.reflection "glsl" :=
  readShader_bytes (by decide) definedMatrixStream

theorem definedMatrixStream_uniforms :
    (readShader "glsl" definedMatrixStream.bytes).uniforms =
      [{ index := 0, type := .float, arrayCount := 2, constant := true,
         name := some (String.ofList ['m']) }] := by
  rw [readShader_definedMatrixStream]
  rfl

theorem definedMatrixStream_references :
    definedMatrixStream.references = [⟨⟨.float, 0⟩, false⟩] := by rfl

/-- No register of `definedMatrixStream` asks for a uniform. -/
theorem definedMatrixStream_unasked {r : ConstantRegister} (h : definedMatrixStream.Refers r) :
    (readShader "glsl" definedMatrixStream.bytes).Defines r ∧
      ¬ AddressesRelatively definedMatrixStream.references r := by
  rw [TokenStream.Refers, definedMatrixStream_references] at h
  obtain ⟨ref, href, rfl⟩ := h
  rw [List.mem_singleton.1 href, readShader_definedMatrixStream, definedMatrixStream_references]
  exact ⟨by decide, by simp [AddressesRelatively]⟩

/-- So its uniform is a row of several registers. -/
theorem readShader_demand_definedMatrixStream :
    (readShader "glsl" definedMatrixStream.bytes).diagnostics = [] ∧
      ∀ u ∈ (readShader "glsl" definedMatrixStream.bytes).uniforms,
        u.constant = true ∧ ∃ e, 1 < e.registerCount ∧ u.IsRowOf e := by
  have haccepted : (readShader "glsl" definedMatrixStream.bytes).diagnostics = [] := by
    rw [readShader_definedMatrixStream]
    rfl
  obtain ⟨-, hstream⟩ := readShader_demand "glsl" definedMatrixStream.bytes haccepted
  obtain ⟨hdemand, -⟩ := hstream definedMatrixStream rfl
  refine ⟨haccepted, fun u hu => ?_⟩
  rcases hdemand u hu with ⟨r, hrefers, -, hasked⟩ | ⟨hconstant, e, -, hrow⟩
  · obtain ⟨hdefined, hunaddressed⟩ := definedMatrixStream_unasked hrefers
    rcases hasked with hundefined | haddressed
    · exact absurd hdefined hundefined
    · exact absurd haddressed hunaddressed
  · exact ⟨hconstant, e, hrow⟩

/-- **A uniform need not have a register that asks for it**: the matrix in `definedMatrixStream` has
none. -/
theorem uniform_although_defined :
    ¬ ∀ (profile : String) (bytes : List UInt8), (readShader profile bytes).diagnostics = [] →
      ∀ s : TokenStream, s.bytes = bytes → ∀ u ∈ (readShader profile bytes).uniforms,
        ∃ r, s.Refers r ∧ u.Covers r ∧
          (¬ (readShader profile bytes).Defines r ∨ AddressesRelatively s.references r) := by
  intro h
  have haccepted : (readShader "glsl" definedMatrixStream.bytes).diagnostics = [] := by
    rw [readShader_definedMatrixStream]
    rfl
  obtain ⟨r, hrefers, -, hasked⟩ := h "glsl" definedMatrixStream.bytes haccepted
    definedMatrixStream rfl _
      (by rw [definedMatrixStream_uniforms]; exact List.mem_singleton_self _)
  obtain ⟨hdefined, hunaddressed⟩ := definedMatrixStream_unasked hrefers
  rcases hasked with hundefined | haddressed
  · exact hundefined hdefined
  · exact hunaddressed haddressed

end Bytecode
end ShaderKit
