import ShaderKit.Proofs.ItemOrder
import ShaderKit.Proofs.UniformCover

/-!
# Uniforms without a constant table

Where the bytecode brings no constant table, its uniforms can be listed outright: one for each
register that is referred to and not defined, and one for each run of defined registers of which
some instruction addresses one relatively (`Asked`).

A run is given by its two ends (`IsRun`).  The search around a register finds a run
(`isRun_around`), and this is the only one that the register belongs to (`IsRun.within`), so that
all references into one run lead to one uniform.  A run begins at a defined register and a single
uniform at an undefined one.  So no uniform displaces another (`Asked.eq_of_register_eq`), and all
that are asked for are there (`mem_uniforms_none_iff`).
-/

set_option autoImplicit false

namespace ShaderKit
namespace Bytecode

/-! ## Runs and their ends -/

/-- The registers from `first` on that lie before `stop` are defined, and their neighbours on either
side are not. -/
structure IsRun (constants : List Constant) (type : ConstantType) (first stop : Nat) : Prop where
  lt : first < stop
  defined : ∀ n, first ≤ n → n < stop → definedAt constants type n = true
  front : ∀ n, n + 1 = first → definedAt constants type n = false
  behind : definedAt constants type stop = false

/-- The uniform for a run: an array, unless the run is of one register. -/
def arrayUniform (type : ConstantType) (first stop : Nat) : Uniform where
  index := first
  type
  arrayCount := if 1 < stop - first then stop - first else 0
  constant := true
  name := none

section

variable {constants : List Constant} {type : ConstantType} {first stop first' stop' n : Nat}

/-- A run reaches as far as any other one with which it has a register in common. -/
theorem IsRun.within (h : IsRun constants type first stop) (h' : IsRun constants type first' stop')
    (hfirst : first ≤ n) (hstop : n < stop) (hfirst' : first' ≤ n) (hstop' : n < stop') :
    first' ≤ first ∧ stop ≤ stop' := by
  constructor
  · by_contra hlater
    have hgap := h'.front (first' - 1) (by omega)
    rw [h.defined (first' - 1) (by omega) (by omega)] at hgap
    cases hgap
  · by_contra hearlier
    have hgap := h'.behind
    rw [h.defined stop' (by omega) (by omega)] at hgap
    cases hgap

/-- The registers that are found around a defined one are a run. -/
theorem isRun_around (hn : definedAt constants type n = true) :
    IsRun constants type (runStart (definedAt constants type) n)
      (runEnd (definedAt constants type) constants.length (n + 1)) where
  lt := by
    have hstart := runStart_le (definedAt constants type) n
    have hend := le_runEnd (definedAt constants type) constants.length (n + 1)
    omega
  defined k hfirst hstop := by
    rcases Nat.lt_trichotomy k n with hlt | rfl | hgt
    · exact member_of_runStart_le hfirst hlt
    · exact hn
    · exact member_of_lt_runEnd hgt hstop
  front k hk := by
    rcases runStart_eq_zero_or (definedAt constants type) n with hzero | hgap
    · omega
    · rwa [← hk] at hgap
  behind := not_definedAt_runEnd hn

/-- The uniform that a register of a run leads to is that of the run. -/
theorem IsRun.runUniform_eq (h : IsRun constants type first stop) (hfirst : first ≤ n)
    (hstop : n < stop) : runUniform constants ⟨type, n⟩ = arrayUniform type first stop := by
  have hfound := isRun_around (h.defined n hfirst hstop)
  have hstart := runStart_le (definedAt constants type) n
  have hend := le_runEnd (definedAt constants type) constants.length (n + 1)
  obtain ⟨hle, hle'⟩ := h.within hfound hfirst hstop hstart hend
  obtain ⟨hge, hge'⟩ := hfound.within h hstart hend hfirst hstop
  obtain rfl : runStart (definedAt constants type) n = first := Nat.le_antisymm hle hge
  obtain rfl : runEnd (definedAt constants type) constants.length (n + 1) = stop :=
    Nat.le_antisymm hge' hle'
  rfl

end

/-! ## What is asked for -/

section

variable {rs : List Reference} {constants : List Constant} {u v : Uniform}

/-- A uniform that references ask for. -/
inductive Asked (rs : List Reference) (constants : List Constant) : Uniform → Prop where
  /-- A register is referred to, and not defined. -/
  | single {r : ConstantRegister} (hrefers : ∃ ref ∈ rs, ref.register = r)
      (hundefined : isDefined constants r = false) : Asked rs constants (singleUniform none r)
  /-- A register of a run is addressed relatively. -/
  | run {type : ConstantType} {first stop n : Nat} (hrun : IsRun constants type first stop)
      (hfirst : first ≤ n) (hstop : n < stop) (haddressed : AddressesRelatively rs ⟨type, n⟩) :
      Asked rs constants (arrayUniform type first stop)

/-- Without a table, a reference leads to a uniform exactly if it asks for one. -/
theorem asked_iff :
    Asked rs constants u ↔ ∃ r ∈ mergeReferences rs, LeadsTo constants none r u := by
  constructor
  · rintro (⟨hrefers, hundefined⟩ | ⟨hrun, hfirst, hstop, haddressed⟩)
    · obtain ⟨r, hr, rfl⟩ := exists_mem_mergeReferences_iff.2 hrefers
      exact ⟨r, hr, .single hundefined nofun⟩
    · obtain ⟨r, hr, hregister, hrelative⟩ := addressesRelatively_mergeReferences.2 haddressed
      refine ⟨r, hr, ?_⟩
      rw [← hrun.runUniform_eq hfirst hstop, ← hregister]
      exact .run rfl (hregister ▸ hrun.defined _ hfirst hstop) hrelative
  · rintro ⟨r, hr, hlead⟩
    cases hlead with
    | entry hentry hspan => cases hentry
    | run hnone hdefined hrelative =>
      exact .run (isRun_around hdefined) (runStart_le _ _) (le_runEnd _ _ _)
        (addressesRelatively_mergeReferences.1 ⟨r, hr, rfl, hrelative⟩)
    | single hundefined halone =>
      exact .single (exists_mem_mergeReferences_iff.1 ⟨r, hr, rfl⟩) hundefined

/-- No two uniforms that are asked for begin at one register. -/
theorem Asked.eq_of_register_eq (hu : Asked rs constants u) (hv : Asked rs constants v)
    (hregister : u.register = v.register) : u = v := by
  obtain ⟨htype, hindex⟩ := ConstantRegister.eq_iff.1 hregister
  rcases hu with @⟨r, -, hundefined⟩ | @⟨type, first, stop, n, hrun, -, -, -⟩
  · rcases hv with @⟨r', -, -⟩ | @⟨type', first', stop', n', hrun', -, -, -⟩
    · obtain rfl : r = r' := hregister
      rfl
    · obtain rfl : r = ⟨type', first'⟩ := hregister
      have hdefined := hrun'.defined first' (Nat.le_refl _) hrun'.lt
      rw [definedAt, hundefined] at hdefined
      cases hdefined
  · rcases hv with @⟨r', -, hundefined⟩ | @⟨type', first', stop', n', hrun', -, -, -⟩
    · obtain rfl : ⟨type, first⟩ = r' := hregister
      have hdefined := hrun.defined first (Nat.le_refl _) hrun.lt
      rw [definedAt, hundefined] at hdefined
      cases hdefined
    · obtain rfl : type = type' := htype
      obtain rfl : first = first' := hindex
      obtain ⟨-, hle⟩ := hrun.within hrun' (Nat.le_refl _) hrun.lt (Nat.le_refl _) hrun'.lt
      obtain ⟨-, hge⟩ := hrun'.within hrun (Nat.le_refl _) hrun'.lt (Nat.le_refl _) hrun.lt
      rw [Nat.le_antisymm hle hge]

/-- **Without a table, the uniforms are those that are asked for.** -/
theorem mem_uniforms_none_iff : u ∈ uniforms rs constants none ↔ Asked rs constants u := by
  have hasked {w : Uniform} (hw : w ∈ uniforms rs constants none) : Asked rs constants w := by
    obtain ⟨r, hr, hlead, -⟩ := exists_first_of_mem_uniforms hw
    exact asked_iff.2 ⟨r, hr, leadsTo_of_uniform? hlead⟩
  refine ⟨hasked, fun hu => ?_⟩
  obtain ⟨r, hr, hlead⟩ := asked_iff.1 hu
  obtain ⟨v, hv, hregister⟩ := exists_mem_uniforms hr (uniform?_of_leadsTo hlead)
  rwa [← (hasked hv).eq_of_register_eq hu hregister]

end

/-! ## Shaders -/

theorem TokenStream.table?_eq_none {s : TokenStream} (h : ∀ i ∈ s.items, i.isTable = false) :
    s.table? = none := by
  have hnone : s.items.filterMap (·.table?) = [] := by
    refine List.filterMap_eq_nil_iff.2 fun i hi => ?_
    by_contra htable
    have hmarked := i.isTable_of_isSome_table? (Option.ne_none_iff_isSome.1 htable)
    rw [h i hi] at hmarked
    cases hmarked
  rw [TokenStream.table?, hnone]
  rfl

/-- **The uniforms of a shader without a constant table.**  If no comment of a shader that is read
is marked as a table, its uniforms are, in the order of the registers that they begin at: a plain
one for each register that an instruction refers to and that is not defined, and a constant one for
each run of defined registers that has one which an instruction addresses relatively. -/
theorem readShader_untabled (profile : String) (bytes : List UInt8)
    (haccepted : (readShader profile bytes).diagnostics = []) :
    (∃ s : TokenStream, s.bytes = bytes) ∧
      ∀ s : TokenStream, s.bytes = bytes → (∀ i ∈ s.items, i.isTable = false) →
        ((readShader profile bytes).uniforms.Pairwise fun u v =>
          u.type.rank < v.type.rank ∨ u.type = v.type ∧ u.index < v.index) ∧
        ∀ u, u ∈ (readShader profile bytes).uniforms ↔
          (∃ r, s.Refers r ∧ ¬ (readShader profile bytes).Defines r ∧
            u = { index := r.number, type := r.type, arrayCount := 0, constant := false,
                  name := none }) ∨
          ∃ type first stop, IsRun (readShader profile bytes).constants type first stop ∧
            (∃ n, first ≤ n ∧ n < stop ∧ AddressesRelatively s.references ⟨type, n⟩) ∧
            u = { index := first, type,
                  arrayCount := if 1 < stop - first then stop - first else 0,
                  constant := true, name := none } := by
  obtain ⟨hprofile, hstream⟩ := exists_stream_of_diagnostics_eq_nil haccepted
  refine ⟨hstream, ?_⟩
  rintro s rfl huntabled
  rw [readShader_bytes hprofile]
  have huniforms : (s.reflection profile).uniforms = uniforms s.references s.constants none :=
    congrArg (uniforms s.references s.constants) (TokenStream.table?_eq_none huntabled)
  rw [huniforms]
  have hordered : InOrder (uniforms s.references s.constants none) := inOrder_uniforms _ _ _
  refine ⟨(List.pairwise_map.1 hordered).imp ConstantRegister.before_iff.1, fun u => ?_⟩
  rw [mem_uniforms_none_iff]
  constructor
  · rintro (⟨hrefers, hundefined⟩ | ⟨hrun, hfirst, hstop, haddressed⟩)
    · refine .inl ⟨_, hrefers, ?_, rfl⟩
      rw [ShaderReflection.defines_iff, Bool.not_eq_true]
      exact hundefined
    · exact .inr ⟨_, _, _, hrun, ⟨_, hfirst, hstop, haddressed⟩, rfl⟩
  · rintro (⟨r, hrefers, hundefined, rfl⟩ |
      ⟨type, first, stop, hrun, ⟨n, hfirst, hstop, haddressed⟩, rfl⟩)
    · rw [ShaderReflection.defines_iff, Bool.not_eq_true] at hundefined
      exact .single hrefers hundefined
    · exact .run hrun hfirst hstop haddressed

/-- A vertex shader that defines `c1`, `c2`, `c3` and `c9`, and moves `c2` and `c3` with relative
addresses, `c9`, and `c7`, which it does not define. -/
def addressedRunStream : TokenStream where
  version := ⟨.vertex, 2, 0⟩
  items :=
    [⟨0x05000051, [0xA00F0002, 0x3F800000, 0, 0, 0]⟩,
     ⟨0x05000051, [0xA00F0001, 0x3F800000, 0, 0, 0]⟩,
     ⟨0x05000051, [0xA00F0009, 0x3F800000, 0, 0, 0]⟩,
     ⟨0x05000051, [0xA00F0003, 0x3F800000, 0, 0, 0]⟩,
     ⟨0x03000001, [0x800F0000, 0xA0E42003, 0xB0000000]⟩,
     ⟨0x03000001, [0x800F0000, 0xA0E42002, 0xB0000000]⟩,
     ⟨0x02000001, [0x800F0000, 0xA0E40009]⟩,
     ⟨0x02000001, [0x800F0000, 0xA0E40007]⟩]
  after := []
  supported := matrixStream.supported
  shaped := by decide
  valid := by decide

theorem readShader_untabled_addressedRunStream :
    let uniforms := (readShader "glsl" addressedRunStream.bytes).uniforms
    (readShader "glsl" addressedRunStream.bytes).diagnostics = [] ∧
      (∀ i ∈ addressedRunStream.items, i.isTable = false) ∧
      ⟨7, .float, 0, false, none⟩ ∈ uniforms ∧ ⟨1, .float, 3, true, none⟩ ∈ uniforms := by
  intro uniforms
  have hread : readShader "glsl" addressedRunStream.bytes = addressedRunStream.reflection "glsl" :=
    readShader_bytes (by decide) addressedRunStream
  have haccepted : (readShader "glsl" addressedRunStream.bytes).diagnostics = [] := by
    rw [hread]
    rfl
  have huntabled : ∀ i ∈ addressedRunStream.items, i.isTable = false := by decide
  obtain ⟨-, hstream⟩ := readShader_untabled "glsl" addressedRunStream.bytes haccepted
  obtain ⟨-, hmem⟩ := hstream addressedRunStream rfl huntabled
  have hreferences : addressedRunStream.references =
      [⟨⟨.float, 3⟩, true⟩, ⟨⟨.float, 2⟩, true⟩, ⟨⟨.float, 9⟩, false⟩, ⟨⟨.float, 7⟩, false⟩] := by
    rfl
  have hrun : IsRun (readShader "glsl" addressedRunStream.bytes).constants .float 1 4 := by
    rw [hread]
    exact
      { lt := by decide
        defined := by decide
        front := by
          intro n hn
          obtain rfl : n = 0 := by omega
          decide
        behind := by decide }
  refine ⟨haccepted, huntabled, (hmem _).2 (.inl ⟨⟨.float, 7⟩, ?_, ?_, rfl⟩),
    (hmem _).2 (.inr ⟨.float, 1, 4, hrun, ⟨3, by decide, by decide, ?_⟩, rfl⟩)⟩
  · rw [TokenStream.Refers, hreferences]
    exact ⟨⟨⟨.float, 7⟩, false⟩, by decide, rfl⟩
  · rw [hread]
    decide
  · rw [hreferences]
    exact ⟨⟨⟨.float, 3⟩, true⟩, by decide, rfl, rfl⟩

end Bytecode
end ShaderKit
