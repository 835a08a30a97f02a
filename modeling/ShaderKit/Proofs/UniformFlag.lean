import ShaderKit.Proofs.UniformCover

/-!
# What the flag of a uniform says

A uniform is flagged as a constant if the bytecode defines the register that it comes from
(`LeadsTo.constant_eq`).  For a uniform of one register, and for one that the constant table does
not name, that is to say that all its registers are defined (`LeadsTo.isDefined_of_covers`).  For an
array of the table it is not: the flag tells of the lowest register of the array that an instruction
refers to, and nothing of the others (`LeadsTo.isDefined_lowest`).
-/

set_option autoImplicit false

namespace ShaderKit
namespace Bytecode

section

variable {constants : List Constant} {table : Option ConstantTable} {r : Reference} {u : Uniform}

/-- **The flag is about the register that the uniform comes from.** -/
theorem LeadsTo.constant_eq (h : LeadsTo constants table r u) :
    u.constant = isDefined constants r.register := by
  cases h with
  | entry hentry hspan => rfl
  | run hnone hdefined hrelative => exact hdefined.symm
  | single hundefined halone => exact hundefined.symm

/-- If a uniform is of one register, or the table does not name it, then all its registers are
defined as soon as the one that it comes from is. -/
theorem LeadsTo.isDefined_of_covers (h : LeadsTo constants table r u)
    (hplain : u.name = none ∨ u.arrayCount ≤ 1) (hdefined : isDefined constants r.register = true)
    {s : ConstantRegister} (hs : u.Covers s) : isDefined constants s = true := by
  cases h with
  | @entry e hentry hspan =>
    have hcount : e.registerCount ≤ 1 := by simpa [entryUniform] using hplain
    obtain ⟨htype, hcovers⟩ := (entryUniform_covers_iff hentry).1 hs
    obtain ⟨-, hle, hlt⟩ := TableEntry.covers_iff.1 (covers_of_entryFor? hentry)
    obtain ⟨-, hle', hlt'⟩ := TableEntry.covers_iff.1 hcovers
    have hnumber : r.register.number = s.number := by omega
    rwa [← ConstantRegister.eq_iff.2 ⟨htype, hnumber⟩]
  | run hnone hdefined' hrelative => exact isDefined_of_runUniform_covers hdefined' hs
  | single hundefined halone =>
    rw [hundefined] at hdefined
    cases hdefined

/-- Of the registers of a uniform that are referred to, the lowest is defined if and only if the one
that the uniform comes from is.  In an array of the table the two are the same. -/
theorem LeadsTo.isDefined_lowest {rs : List Reference} (h : LeadsTo constants table r u)
    (hdisjoint : ∀ t ∈ table, t.IsDisjoint)
    (hfirst : ∀ s ∈ mergeReferences rs, ∀ v, uniform? constants table s = some v →
      v.register = u.register → s = r ∨ r.register.before s.register = true)
    {s : Reference} (hs : s ∈ mergeReferences rs) (hcovers : u.Covers s.register)
    (hle : s.register.number ≤ r.register.number) :
    isDefined constants s.register = isDefined constants r.register := by
  cases h with
  | @entry e hentry hspan =>
    obtain ⟨htype, hinside⟩ := (entryUniform_covers_iff hentry).1 hcovers
    by_cases hnumber : r.register.number = s.register.number
    · rw [ConstantRegister.eq_iff.2 ⟨htype, hnumber⟩]
    -- two registers of one entry, so that the lower one leads to the same uniform
    · obtain ⟨-, hle', hlt'⟩ := TableEntry.covers_iff.1 hinside
      obtain ⟨-, hle'', hlt''⟩ := TableEntry.covers_iff.1 (covers_of_entryFor? hentry)
      have hcount : 1 < e.registerCount := by omega
      have hlead : LeadsTo constants table s (entryUniform constants s.register e) :=
        .entry (entryFor?_of_covers hdisjoint hentry hinside) (.inr hcount)
      have hregister : (entryUniform constants s.register e).register =
          (entryUniform constants r.register e).register :=
        ConstantRegister.eq_iff.2 ⟨htype.symm, rfl⟩
      rcases hfirst s hs _ (uniform?_of_leadsTo hlead) hregister with rfl | hbefore
      · rfl
      · have hlower := ConstantRegister.number_lt_of_before htype hbefore
        omega
  | run hnone hdefined hrelative =>
    rw [hdefined, isDefined_of_runUniform_covers hdefined hcovers]
  | single hundefined halone =>
    rw [singleUniform_covers_iff.1 hcovers]

end

/-- **What the flag of a uniform says.**  Every uniform of a shader that is read comes with a
register that an instruction refers to, and is flagged if and only if the bytecode defines that
register.  If all registers of the uniform are defined, it is flagged.  If it is flagged, all of
them are defined, provided that it has one register only, or no name; in an array that the table
names, the lowest one that an instruction refers to decides, if the entries of the table are apart.
-/
theorem readShader_flag (profile : String) (bytes : List UInt8)
    (haccepted : (readShader profile bytes).diagnostics = []) :
    (∃ s : TokenStream, s.bytes = bytes) ∧
      ∀ s : TokenStream, s.bytes = bytes → ∀ u ∈ (readShader profile bytes).uniforms,
        (∃ r, s.Refers r ∧ u.Covers r ∧
          (u.constant = true ↔ (readShader profile bytes).Defines r)) ∧
        ((∀ r, u.Covers r → (readShader profile bytes).Defines r) → u.constant = true) ∧
        (u.name = none ∨ u.arrayCount ≤ 1 →
          (u.constant = true ↔ ∀ r, u.Covers r → (readShader profile bytes).Defines r)) ∧
        ((∀ t ∈ s.table?, t.IsDisjoint) → ∀ r, s.Refers r → u.Covers r →
          (∀ r', s.Refers r' → u.Covers r' → r.number ≤ r'.number) →
          (u.constant = true ↔ (readShader profile bytes).Defines r)) := by
  obtain ⟨hprofile, hstream⟩ := exists_stream_of_diagnostics_eq_nil haccepted
  refine ⟨hstream, ?_⟩
  rintro s rfl
  rw [readShader_bytes hprofile]
  intro u hu
  obtain ⟨r, hr, hlead, hfirst⟩ := exists_first_of_mem_uniforms hu
  have hleads := leadsTo_of_uniform? hlead
  obtain ⟨ref, href, hregister⟩ := exists_mem_mergeReferences_iff.1 ⟨r, hr, rfl⟩
  have hrefers : s.Refers r.register := ⟨ref, href, hregister⟩
  have hflag : u.constant = true ↔ (s.reflection profile).Defines r.register := by
    rw [ShaderReflection.defines_iff, hleads.constant_eq]
    rfl
  refine ⟨⟨r.register, hrefers, hleads.covers, hflag⟩, ?_, ?_, ?_⟩
  · intro hall
    exact hflag.2 (hall r.register hleads.covers)
  · intro hplain
    refine ⟨fun hconstant r' hr' => ?_, fun hall => hflag.2 (hall r.register hleads.covers)⟩
    rw [hleads.constant_eq] at hconstant
    exact ShaderReflection.defines_iff.2 (hleads.isDefined_of_covers hplain hconstant hr')
  · rintro hdisjoint _ ⟨ref', href', rfl⟩ hcovers hlowest
    obtain ⟨r', hr', heq⟩ := exists_mem_mergeReferences_iff.2 ⟨ref', href', rfl⟩
    rw [← heq] at hcovers hlowest ⊢
    have hsame := hleads.isDefined_lowest hdisjoint hfirst hr' hcovers
      (hlowest r.register hrefers hleads.covers)
    rw [ShaderReflection.defines_iff, hleads.constant_eq, ← hsame]
    rfl

theorem matrixStream_uniforms :
    (readShader "glsl" matrixStream.bytes).uniforms =
      [{ index := 0, type := .float, arrayCount := 4, constant := true,
         name := some (String.ofList ['m']) }] := by
  rw [readShader_matrixStream]
  rfl

/-- In `matrixStream` the flag is that of `c0`. -/
theorem readShader_flag_matrixStream :
    (readShader "glsl" matrixStream.bytes).diagnostics = [] ∧
      ∀ u ∈ (readShader "glsl" matrixStream.bytes).uniforms,
        (u.constant = true ↔ (readShader "glsl" matrixStream.bytes).Defines ⟨.float, 0⟩) := by
  have haccepted : (readShader "glsl" matrixStream.bytes).diagnostics = [] := by
    rw [readShader_matrixStream]
    rfl
  refine ⟨haccepted, fun u hu => ?_⟩
  obtain ⟨-, -, -, hlowest⟩ :=
    (readShader_flag "glsl" matrixStream.bytes haccepted).2 matrixStream rfl u hu
  have hrefers : matrixStream.Refers ⟨.float, 0⟩ := ⟨⟨⟨.float, 0⟩, false⟩, by decide, rfl⟩
  have hcovers : u.Covers ⟨.float, 0⟩ := by
    rw [matrixStream_uniforms, List.mem_singleton] at hu
    rw [hu]
    exact ⟨rfl, by decide, by decide⟩
  exact hlowest matrixStream_isDisjoint _ hrefers hcovers fun r _ _ => Nat.zero_le r.number

/-- **A flag does not mean that all registers of the uniform are defined**: that of the matrix in
`matrixStream` is set, although `c1` is not defined. -/
theorem flagged_although_undefined :
    ¬ ∀ (profile : String) (bytes : List UInt8), (readShader profile bytes).diagnostics = [] →
      ∀ u ∈ (readShader profile bytes).uniforms,
        (u.constant = true ↔ ∀ r, u.Covers r → (readShader profile bytes).Defines r) := by
  intro h
  have haccepted : (readShader "glsl" matrixStream.bytes).diagnostics = [] := by
    rw [readShader_matrixStream]
    rfl
  have hbacked := (h "glsl" matrixStream.bytes haccepted _
    (by rw [matrixStream_uniforms]; exact List.mem_singleton_self _)).1 rfl
  have hundefined : ¬ (readShader "glsl" matrixStream.bytes).Defines ⟨.float, 1⟩ := by
    rw [readShader_matrixStream]
    decide
  exact hundefined (hbacked ⟨.float, 1⟩ ⟨rfl, by decide, by decide⟩)

end Bytecode
end ShaderKit
