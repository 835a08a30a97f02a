import Mathlib.Data.List.Perm.Basic
import ShaderKit.Proofs.RegisterOrder
import ShaderKit.Proofs.ShaderReading

/-!
# Shaders with their items in another order

A shader is read from its first item to its last one, but nothing of what is read depends on that.
An instruction may stand before or after the declarations, the definitions and the constant table
that say something of the registers it refers to.

For the parts of a reflection that are lists of what single items say this is plain: the lists are
permuted as the items are.  The uniforms are put together from all items, and their list is not
permuted but the same.  There are two reasons.  The merged references are determined by which
registers are referred to and which of them relatively (`mem_mergeReferences_iff`), and stand in the
order of the registers; and of the definitions it only counts which registers they are for.  The one
thing that does depend on the order is which constant table is the last, so there must not be two.
-/

set_option autoImplicit false

namespace ShaderKit
namespace Bytecode

/-! ## References in another order -/

/-- In a list in the order of registers there is at most one reference to each. -/
theorem eq_of_register_eq {l : List Reference}
    (hl : l.Pairwise fun r s => r.register.before s.register = true) {r s : Reference}
    (hr : r ∈ l) (hs : s ∈ l) (h : r.register = s.register) : r = s := by
  have hne : l.Pairwise fun r s => r.register = s.register → r = s := by
    refine hl.imp fun hbefore heq => ?_
    rw [heq] at hbefore
    exact absurd hbefore (ConstantRegister.not_before_self _)
  refine hne.forall_of_forall_of_flip (fun _ _ _ => rfl) ?_ hr hs h
  exact hne.imp_of_mem fun _ _ hrs heq => (hrs heq.symm).symm

/-- **What the merged references are**: one to each register that is referred to, which is relative
if some reference to that register is. -/
theorem mem_mergeReferences_iff {rs : List Reference} {r : Reference} :
    r ∈ mergeReferences rs ↔
      (∃ s ∈ rs, s.register = r.register) ∧
        (r.relative = true ↔ AddressesRelatively rs r.register) := by
  have hordered := pairwise_mergeReferences rs
  have hrelative : ∀ s ∈ mergeReferences rs,
      (s.relative = true ↔ AddressesRelatively rs s.register) := by
    intro s hs
    rw [← addressesRelatively_mergeReferences]
    constructor
    · intro h
      exact ⟨s, hs, rfl, h⟩
    · rintro ⟨t, ht, hts, h⟩
      rwa [eq_of_register_eq hordered ht hs hts] at h
  rw [← exists_mem_mergeReferences_iff]
  constructor
  · intro hr
    exact ⟨⟨r, hr, rfl⟩, hrelative r hr⟩
  · rintro ⟨⟨s, hs, hsr⟩, hr⟩
    have hsame : s.relative = r.relative := by
      rw [Bool.eq_iff_iff, hrelative s hs, hr, hsr]
    obtain ⟨register, relative⟩ := s
    obtain ⟨register', relative'⟩ := r
    simp only at hsr hsame
    rwa [← hsr, ← hsame]

/-- **References are merged alike in every order.** -/
theorem mergeReferences_perm {rs rs' : List Reference} (h : rs.Perm rs') :
    mergeReferences rs = mergeReferences rs' := by
  have hordered := pairwise_mergeReferences
  have hnodup (l : List Reference) : (mergeReferences l).Nodup := by
    refine (hordered l).imp fun hbefore heq => ?_
    rw [heq] at hbefore
    exact ConstantRegister.not_before_self _ hbefore
  have hmem (r : Reference) : r ∈ mergeReferences rs ↔ r ∈ mergeReferences rs' := by
    simp only [mem_mergeReferences_iff, AddressesRelatively, h.mem_iff]
  have hperm : (mergeReferences rs).Perm (mergeReferences rs') :=
    (List.perm_ext_iff_of_nodup (hnodup rs) (hnodup rs')).2 hmem
  refine hperm.eq_of_pairwise (fun r s _ _ hrs hsr => ?_) (hordered rs) (hordered rs')
  exact absurd (ConstantRegister.before_trans hrs hsr) (ConstantRegister.not_before_self _)

/-! ## Uniforms -/

theorem isDefined_perm {cs cs' : List Constant} (h : cs.Perm cs') : isDefined cs = isDefined cs' :=
  funext fun _ => h.any_eq

/-- The definitions are only asked which registers they are for, and how many there are. -/
theorem uniform?_perm {cs cs' : List Constant} (h : cs.Perm cs') (table : Option ConstantTable) :
    uniform? cs table = uniform? cs' table := by
  funext r
  simp only [uniform?, isDefined_perm h, h.length_eq]

/-- **The uniforms are the same for references and definitions in every order.** -/
theorem uniforms_perm {rs rs' : List Reference} (hrs : rs.Perm rs') {cs cs' : List Constant}
    (hcs : cs.Perm cs') (table : Option ConstantTable) :
    uniforms rs cs table = uniforms rs' cs' table := by
  simp only [uniforms, mergeReferences_perm hrs, uniform?_perm hcs]

/-! ## Tables -/

namespace Item

/-- The item is a comment that is marked as a constant table. -/
def isTable (i : Item) : Bool := i.kind = .comment && i.payload.head? = some tableMark

theorem isTable_of_isSome_table? {i : Item} (h : i.table?.isSome = true) : i.isTable = true := by
  rw [table?] at h
  split at h
  · rename_i mark words hkind hpayload
    split at h
    · rename_i hmark
      simp [isTable, hkind, hpayload, hmark]
    · simp at h
  · simp at h

end Item

theorem eq_of_perm_of_length_le_one {α : Type} {l l' : List α} (h : l.Perm l')
    (hlength : l'.length ≤ 1) : l = l' := by
  match l', hlength with
  | [], _ => exact h.eq_nil
  | [_], _ => exact List.perm_singleton.1 h

/-! ## Shaders -/

/-- Two reflections are the same up to the order in which attributes, constants and samplers are
listed. -/
structure ShaderReflection.SameUpToOrder (r r' : ShaderReflection) : Prop where
  profile : r.profile = r'.profile
  kind : r.kind = r'.kind
  major : r.major = r'.major
  minor : r.minor = r'.minor
  instructionCount : r.instructionCount = r'.instructionCount
  uniforms : r.uniforms = r'.uniforms
  attributes : r.attributes.Perm r'.attributes
  constants : r.constants.Perm r'.constants
  samplers : r.samplers.Perm r'.samplers
  output : r.output = r'.output
  diagnostics : r.diagnostics = r'.diagnostics

namespace TokenStream

/-- The shader with its items in another order. -/
def reordered (s : TokenStream) (items : List Item) (h : items.Perm s.items) : TokenStream :=
  { s with
    items
    shaped := fun i hi => s.shaped i (h.mem_iff.1 hi)
    valid := fun i hi => s.valid i (h.mem_iff.1 hi) }

variable {s : TokenStream} {items : List Item} (h : items.Perm s.items)

/-- With at most one table there is no other last one. -/
theorem table?_reordered (htable : s.items.countP (·.isTable) ≤ 1) :
    (s.reordered items h).table? = s.table? := by
  have hlength : (s.items.filterMap (·.table?)).length ≤ 1 := by
    rw [List.length_filterMap_eq_countP]
    exact (List.countP_mono_left fun i _ => i.isTable_of_isSome_table?).trans htable
  exact congrArg List.getLast? (eq_of_perm_of_length_le_one (h.filterMap _) hlength)

theorem reflection_reordered (htable : s.items.countP (·.isTable) ≤ 1) (profile : String) :
    ((s.reordered items h).reflection profile).SameUpToOrder (s.reflection profile) where
  profile := rfl
  kind := rfl
  major := rfl
  minor := rfl
  instructionCount := h.countP_eq _
  uniforms := by
    have hreferences : (s.reordered items h).references.Perm s.references := h.flatMap_right _
    have hconstants : (s.reordered items h).constants.Perm s.constants := h.filterMap _
    show Bytecode.uniforms _ _ (s.reordered items h).table? = _
    rw [table?_reordered h htable]
    exact uniforms_perm hreferences hconstants _
  attributes := h.filterMap _
  constants := h.filterMap _
  samplers := by
    show (s.reordered items h).samplers.Perm s.samplers
    rw [TokenStream.samplers, table?_reordered h htable]
    exact (h.filterMap _).map _
  output := rfl
  diagnostics := rfl

end TokenStream

/-- **The order of the items does not matter.**  Whatever is accepted is a stream of items between
a version word and an end word.  If at most one of them is marked as a constant table, then the
words of the same items in any other order are accepted, too, and the same is read from them, but
that attributes, constants and samplers are listed in another order; the uniforms are not. -/
theorem readShader_reordered (profile : String) (bytes : List UInt8)
    (haccepted : (readShader profile bytes).diagnostics = []) :
    (∃ s : TokenStream, s.bytes = bytes) ∧
      ∀ s : TokenStream, s.bytes = bytes → s.items.countP (·.isTable) ≤ 1 →
        ∀ items : List Item, items.Perm s.items →
          let words := s.version.word :: (wordsOfItems items ++ endWord :: s.after)
          (readShader profile (bytesOfWords words)).diagnostics = [] ∧
            (readShader profile (bytesOfWords words)).SameUpToOrder (readShader profile bytes) := by
  obtain ⟨hprofile, hstream⟩ := exists_stream_of_diagnostics_eq_nil haccepted
  refine ⟨hstream, ?_⟩
  rintro s rfl htable items h words
  have hread : readShader profile (bytesOfWords words) = (s.reordered items h).reflection profile :=
    readShader_bytes hprofile (s.reordered items h)
  rw [hread, readShader_bytes hprofile s]
  exact ⟨rfl, s.reflection_reordered h htable profile⟩

/-- A vertex shader that moves `c2`, once relatively addressed, before it declares two samplers,
defines `c5`, and has a table of one matrix in `c0` to `c3`. -/
def usingFirstStream : TokenStream where
  version := ⟨.vertex, 2, 1⟩
  items :=
    [⟨0x02000001, [0x800F0000, 0xA0E40002]⟩,
     ⟨0x03000001, [0x800F0000, 0xA0E42002, 0xB0000000]⟩,
     ⟨0x0200001F, [0x90000000, 0xA00F0800]⟩,
     ⟨0x0200001F, [0x98000000, 0xA00F0801]⟩,
     ⟨0x05000051, [0xA00F0005, 0x3F800000, 0, 0, 0]⟩,
     ⟨0x000EFFFE, [tableMark, 28, 0, 0xFFFE0300, 1, 28, 0, 0, 48, 2, 4, 0, 0, 0x6D]⟩]
  after := [0xFFFFFFFF]
  supported := ⟨.inl rfl, by decide⟩
  shaped := by decide
  valid := by decide

theorem usingFirstStream_uniforms :
    uniforms usingFirstStream.references usingFirstStream.constants usingFirstStream.table? =
      [⟨0, .float, 4, false, some (String.ofList ['m'])⟩] := by rfl

theorem readShader_reordered_usingFirstStream :
    let reversed := bytesOfWords (usingFirstStream.version.word ::
      (wordsOfItems usingFirstStream.items.reverse ++ endWord :: usingFirstStream.after))
    (readShader "glsl" usingFirstStream.bytes).diagnostics = [] ∧
      usingFirstStream.items.countP (·.isTable) ≤ 1 ∧
      (readShader "glsl" reversed).diagnostics = [] ∧
      (readShader "glsl" reversed).uniforms =
        [⟨0, .float, 4, false, some (String.ofList ['m'])⟩] ∧
      (readShader "glsl" reversed).samplers.Perm [⟨0, .twoD, none⟩, ⟨1, .cube, none⟩] := by
  intro reversed
  have hread : readShader "glsl" usingFirstStream.bytes = usingFirstStream.reflection "glsl" :=
    readShader_bytes (by decide) usingFirstStream
  have haccepted : (readShader "glsl" usingFirstStream.bytes).diagnostics = [] := by
    rw [hread]
    rfl
  have htable : usingFirstStream.items.countP (·.isTable) ≤ 1 := by decide
  obtain ⟨-, hstream⟩ := readShader_reordered "glsl" usingFirstStream.bytes haccepted
  obtain ⟨hreversed, hsame⟩ :=
    hstream usingFirstStream rfl htable _ (List.reverse_perm usingFirstStream.items)
  rw [hread] at hsame
  exact ⟨haccepted, htable, hreversed, hsame.uniforms.trans usingFirstStream_uniforms,
    hsame.samplers⟩

end Bytecode
end ShaderKit
