import ShaderKit.Bytecode.Uniforms

/-!
# Lists in the order of registers

References and uniforms are both kept in lists that are in the order of their registers, and hold
each register once.  Both grow by an insertion, and the two insertions differ only in what becomes
of two members with one register.  On the registers alone they are the same (`insertRegister`), and
so the order is proved once, for that.

Of several uniforms that begin at one register the first one inserted stays
(`mem_foldl_insertUniform`).  So a uniform of a shader comes from the first reference that leads to
its register (`exists_first_of_mem_uniforms`), and there is one for every reference that leads to
any (`exists_mem_uniforms`).
-/

set_option autoImplicit false

namespace ShaderKit
namespace Bytecode

/-! ## The order -/

theorem ConstantType.rank_injective {t u : ConstantType} (h : t.rank = u.rank) : t = u := by
  cases t <;> cases u <;> simp_all [rank]

namespace ConstantRegister

variable {r s t : ConstantRegister}

theorem eq_iff : r = s ↔ r.type = s.type ∧ r.number = s.number := by
  obtain ⟨type, number⟩ := r
  obtain ⟨type', number'⟩ := s
  simp

theorem before_iff : r.before s = true ↔
    r.type.rank < s.type.rank ∨ r.type = s.type ∧ r.number < s.number := by
  simp [before]

theorem not_before_self (r : ConstantRegister) : ¬ r.before r = true := by
  rw [before_iff]
  omega

theorem number_lt_of_before (htype : r.type = s.type) (h : r.before s = true) :
    r.number < s.number := by
  rcases before_iff.1 h with hrank | ⟨-, hnumber⟩
  · rw [htype] at hrank
    omega
  · exact hnumber

theorem before_trans (hrs : r.before s = true) (hst : s.before t = true) : r.before t = true := by
  rw [before_iff] at hrs hst ⊢
  rcases hrs with hrs | ⟨hrs, hlt⟩
  · rcases hst with hst | ⟨hst, -⟩
    · exact Or.inl (Nat.lt_trans hrs hst)
    · exact Or.inl (hst ▸ hrs)
  · rcases hst with hst | ⟨hst, hlt'⟩
    · exact Or.inl (hrs ▸ hst)
    · exact Or.inr ⟨hrs.trans hst, Nat.lt_trans hlt hlt'⟩

theorem before_of_ne_of_not_before (hne : r ≠ s) (h : ¬ r.before s = true) : s.before r = true := by
  rw [before_iff] at h ⊢
  by_cases htype : s.type = r.type
  · have hnumber : s.number ≠ r.number := fun h => hne (eq_iff.2 ⟨htype.symm, h.symm⟩)
    simp only [htype, Nat.lt_irrefl, true_and, false_or] at h ⊢
    omega
  · have hrank : s.type.rank ≠ r.type.rank := fun h => htype (ConstantType.rank_injective h)
    omega

end ConstantRegister

/-! ## Insertion -/

/-- Adds a register to a list in order, unless it is there already. -/
def insertRegister (r : ConstantRegister) : List ConstantRegister → List ConstantRegister
  | [] => [r]
  | s :: l => if r = s then s :: l else if r.before s then r :: s :: l else s :: insertRegister r l

theorem mem_insertRegister {r a : ConstantRegister} {l : List ConstantRegister} :
    a ∈ insertRegister r l ↔ a = r ∨ a ∈ l := by
  induction l with
  | nil => simp [insertRegister]
  | cons s l ih =>
    rw [insertRegister]
    split
    · rename_i h
      simp [h]
    · split
      · simp
      · rw [List.mem_cons, ih, List.mem_cons, or_left_comm]

/-- The registers are in strict order. -/
def IsOrdered (l : List ConstantRegister) : Prop := l.Pairwise fun r s => r.before s = true

theorem isOrdered_insertRegister (r : ConstantRegister) {l : List ConstantRegister}
    (hl : IsOrdered l) : IsOrdered (insertRegister r l) := by
  induction l with
  | nil => exact List.pairwise_singleton _ r
  | cons s l ih =>
    obtain ⟨hs, htail⟩ := List.pairwise_cons.1 hl
    rw [insertRegister]
    split
    · exact hl
    · rename_i hne
      split
      · rename_i hbefore
        refine List.pairwise_cons.2 ⟨fun a ha => ?_, hl⟩
        rcases List.mem_cons.1 ha with rfl | ha
        · exact hbefore
        · exact ConstantRegister.before_trans hbefore (hs a ha)
      · rename_i hbefore
        refine List.pairwise_cons.2 ⟨fun a ha => ?_, ih htail⟩
        rcases mem_insertRegister.1 ha with rfl | ha
        · exact ConstantRegister.before_of_ne_of_not_before hne hbefore
        · exact hs a ha

theorem isOrdered_foldl_insertRegister (rs : List ConstantRegister) {l : List ConstantRegister}
    (hl : IsOrdered l) : IsOrdered (rs.foldl (fun l r => insertRegister r l) l) := by
  induction rs generalizing l with
  | nil => exact hl
  | cons r rs ih => exact ih (isOrdered_insertRegister r hl)

theorem mem_foldl_insertRegister {rs l : List ConstantRegister} {a : ConstantRegister} :
    a ∈ rs.foldl (fun l r => insertRegister r l) l ↔ a ∈ rs ∨ a ∈ l := by
  induction rs generalizing l with
  | nil => simp
  | cons r rs ih =>
    rw [List.foldl_cons, ih, mem_insertRegister, List.mem_cons, or_left_comm, or_assoc]

/-! ## References -/

theorem map_insertReference (r : Reference) (l : List Reference) :
    (insertReference r l).map (·.register) = insertRegister r.register (l.map (·.register)) := by
  induction l with
  | nil => rfl
  | cons s l ih =>
    rw [insertReference, List.map_cons, insertRegister]
    split
    · rfl
    · split
      · rfl
      · rw [List.map_cons, ih]

theorem map_mergeReferences (rs : List Reference) :
    (mergeReferences rs).map (·.register) =
      (rs.map (·.register)).foldl (fun l r => insertRegister r l) [] := by
  have hfold (l : List Reference) : (rs.foldl (fun l r => insertReference r l) l).map (·.register) =
      (rs.map (·.register)).foldl (fun l r => insertRegister r l) (l.map (·.register)) := by
    induction rs generalizing l with
    | nil => rfl
    | cons r rs ih => rw [List.foldl_cons, ih, map_insertReference, List.map_cons, List.foldl_cons]
  exact hfold []

/-- The merged references are in the order of their registers. -/
theorem pairwise_mergeReferences (rs : List Reference) :
    (mergeReferences rs).Pairwise fun r s => r.register.before s.register = true := by
  have hordered : IsOrdered ((mergeReferences rs).map (·.register)) := by
    rw [map_mergeReferences]
    exact isOrdered_foldl_insertRegister _ List.Pairwise.nil
  exact List.pairwise_map.1 hordered

/-- Merging keeps every register, and adds none. -/
theorem exists_mem_mergeReferences_iff {rs : List Reference} {register : ConstantRegister} :
    (∃ r ∈ mergeReferences rs, r.register = register) ↔ ∃ r ∈ rs, r.register = register := by
  rw [← List.mem_map, ← List.mem_map, map_mergeReferences, mem_foldl_insertRegister]
  simp

/-- Some reference to the register is relative. -/
def AddressesRelatively (rs : List Reference) (register : ConstantRegister) : Prop :=
  ∃ r ∈ rs, r.register = register ∧ r.relative = true

theorem addressesRelatively_cons {r : Reference} {rs : List Reference}
    {register : ConstantRegister} :
    AddressesRelatively (r :: rs) register ↔
      (r.register = register ∧ r.relative = true) ∨ AddressesRelatively rs register := by
  simp [AddressesRelatively]

theorem addressesRelatively_insertReference {r : Reference} {l : List Reference}
    {register : ConstantRegister} :
    AddressesRelatively (insertReference r l) register ↔ AddressesRelatively (r :: l) register := by
  induction l with
  | nil => rfl
  | cons s l ih =>
    rw [insertReference]
    split
    · rename_i hregister
      -- the merged reference is relative if either of the two is
      simp only [addressesRelatively_cons, hregister, Bool.or_eq_true]
      rw [and_or_left, or_assoc, or_left_comm]
    · split
      · rfl
      · rw [addressesRelatively_cons, ih, addressesRelatively_cons, addressesRelatively_cons,
          addressesRelatively_cons, or_left_comm]

/-- **One relative reference is enough** to make a register count as relatively addressed, and
nothing else does. -/
theorem addressesRelatively_mergeReferences {rs : List Reference} {register : ConstantRegister} :
    AddressesRelatively (mergeReferences rs) register ↔ AddressesRelatively rs register := by
  have hfold (l : List Reference) :
      AddressesRelatively (rs.foldl (fun l r => insertReference r l) l) register ↔
        AddressesRelatively rs register ∨ AddressesRelatively l register := by
    induction rs generalizing l with
    | nil => simp [AddressesRelatively]
    | cons r rs ih =>
      rw [List.foldl_cons, ih, addressesRelatively_insertReference, addressesRelatively_cons,
        addressesRelatively_cons, or_left_comm, or_assoc]
  rw [mergeReferences, hfold]
  simp [AddressesRelatively]

/-! ## Uniforms -/

theorem map_insertUniform (u : Uniform) (l : List Uniform) :
    (insertUniform u l).map (·.register) = insertRegister u.register (l.map (·.register)) := by
  induction l with
  | nil => rfl
  | cons v l ih =>
    rw [insertUniform, List.map_cons, insertRegister]
    split
    · rfl
    · split
      · rfl
      · rw [List.map_cons, ih]

/-- The uniforms begin at registers that are in strict order. -/
def InOrder (l : List Uniform) : Prop := IsOrdered (l.map (·.register))

theorem inOrder_insertUniform (u : Uniform) {l : List Uniform} (hl : InOrder l) :
    InOrder (insertUniform u l) := by
  rw [InOrder, map_insertUniform]
  exact isOrdered_insertRegister u.register hl

/-- A uniform is added unless there is one that begins at its register. -/
theorem mem_insertUniform {u v : Uniform} {l : List Uniform} (hl : InOrder l) :
    v ∈ insertUniform u l ↔ v ∈ l ∨ v = u ∧ ∀ w ∈ l, w.register ≠ u.register := by
  induction l with
  | nil => simp [insertUniform]
  | cons w l ih =>
    obtain ⟨hw, htail⟩ := List.pairwise_cons.1 hl
    have hafter : ∀ x ∈ l, w.register.before x.register = true :=
      fun x hx => hw _ (List.mem_map_of_mem hx)
    rw [insertUniform]
    split
    · rename_i h
      simp [h]
    · rename_i hne
      split
      · rename_i hbefore
        have hnew : ∀ x ∈ w :: l, x.register ≠ u.register := by
          intro x hx heq
          rcases List.mem_cons.1 hx with rfl | hx
          · exact hne heq.symm
          · have hux := ConstantRegister.before_trans hbefore (hafter x hx)
            rw [heq] at hux
            exact ConstantRegister.not_before_self _ hux
        rw [List.mem_cons, and_iff_left hnew, or_comm]
      · rw [List.mem_cons, ih htail, List.mem_cons, List.forall_mem_cons,
          and_iff_right (Ne.symm hne), or_assoc]

theorem forall_mem_insertUniform {u : Uniform} {l : List Uniform} {p : ConstantRegister → Prop} :
    (∀ w ∈ insertUniform u l, p w.register) ↔ p u.register ∧ ∀ w ∈ l, p w.register := by
  have hmap (l : List Uniform) : (∀ w ∈ l, p w.register) ↔ ∀ r ∈ l.map (·.register), p r := by
    simp
  rw [hmap, hmap, map_insertUniform]
  simp only [mem_insertRegister, forall_eq_or_imp]

/-- **Of several uniforms at one register the first one stays**, unless the list had one before. -/
theorem mem_foldl_insertUniform (us : List Uniform) {l : List Uniform} (hl : InOrder l)
    (u : Uniform) :
    u ∈ us.foldl (fun l u => insertUniform u l) l ↔
      u ∈ l ∨ us.find? (fun v => v.register = u.register) = some u ∧
        ∀ w ∈ l, w.register ≠ u.register := by
  induction us generalizing l with
  | nil => simp
  | cons v us ih =>
    have hkeys : (∀ w ∈ insertUniform v l, w.register ≠ u.register) ↔
        v.register ≠ u.register ∧ ∀ w ∈ l, w.register ≠ u.register :=
      forall_mem_insertUniform (p := fun r => r ≠ u.register)
    rw [List.foldl_cons, ih (inOrder_insertUniform v hl), mem_insertUniform hl, hkeys,
      List.find?_cons, or_assoc]
    by_cases h : v.register = u.register
    · simp only [h, ne_eq, not_true_eq_false, false_and, and_false, or_false, decide_true,
        Option.some.injEq]
      rw [eq_comm (a := u)]
    · have hother : u ≠ v := by
        rintro rfl
        exact h rfl
      simp only [h, hother, false_and, false_or, ne_eq, not_false_eq_true, true_and, decide_false]

theorem inOrder_foldl_insertUniform (us : List Uniform) {l : List Uniform} (hl : InOrder l) :
    InOrder (us.foldl (fun l u => insertUniform u l) l) := by
  induction us generalizing l with
  | nil => exact hl
  | cons u us ih => exact ih (inOrder_insertUniform u hl)

section

variable (rs : List Reference) (constants : List Constant) (table : Option ConstantTable)

theorem inOrder_uniforms : InOrder (uniforms rs constants table) :=
  inOrder_foldl_insertUniform _ List.Pairwise.nil

variable {rs constants table}

theorem mem_uniforms_iff {u : Uniform} :
    u ∈ uniforms rs constants table ↔
      ((mergeReferences rs).filterMap (uniform? constants table)).find?
        (fun v => v.register = u.register) = some u := by
  have hempty : InOrder [] := List.Pairwise.nil
  rw [uniforms, mem_foldl_insertUniform _ hempty]
  simp

/-- **A uniform comes from the first reference that leads to its register.** -/
theorem exists_first_of_mem_uniforms {u : Uniform} (hu : u ∈ uniforms rs constants table) :
    ∃ r ∈ mergeReferences rs, uniform? constants table r = some u ∧
      ∀ s ∈ mergeReferences rs, ∀ v, uniform? constants table s = some v →
        v.register = u.register → s = r ∨ r.register.before s.register = true := by
  obtain ⟨-, earlier, later, hsplit, hearlier⟩ :=
    List.find?_eq_some_iff_append.1 (mem_uniforms_iff.1 hu)
  obtain ⟨front, rest, hmerged, hfront, hrest⟩ := List.filterMap_eq_append_iff.1 hsplit
  obtain ⟨silent, r, back, rfl, hsilent, hr, -⟩ := List.filterMap_eq_cons_iff.1 hrest
  have hordered := pairwise_mergeReferences rs
  rw [hmerged, List.pairwise_append, List.pairwise_append] at hordered
  have hback := (List.pairwise_cons.1 hordered.2.1.2.1).1
  refine ⟨r, by simp [hmerged], hr, fun s hs v hv hregister => ?_⟩
  rw [hmerged, List.mem_append, List.mem_append, List.mem_cons] at hs
  rcases hs with hs | hs | rfl | hs
  · have hmem : v ∈ earlier := hfront ▸ List.mem_filterMap.2 ⟨s, hs, hv⟩
    simpa [hregister] using hearlier v hmem
  · rw [hsilent s hs] at hv
    cases hv
  · exact Or.inl rfl
  · exact Or.inr (hback s hs)

/-- For every reference that leads to a uniform there is one at the same register. -/
theorem exists_mem_uniforms {r : Reference} {u : Uniform} (hr : r ∈ mergeReferences rs)
    (hu : uniform? constants table r = some u) :
    ∃ v ∈ uniforms rs constants table, v.register = u.register := by
  have hmem : u ∈ (mergeReferences rs).filterMap (uniform? constants table) :=
    List.mem_filterMap.2 ⟨r, hr, hu⟩
  have hsome : (((mergeReferences rs).filterMap (uniform? constants table)).find?
      fun v => v.register = u.register).isSome = true :=
    List.find?_isSome.2 ⟨u, hmem, decide_eq_true rfl⟩
  obtain ⟨v, hv⟩ := Option.isSome_iff_exists.1 hsome
  have hregister : v.register = u.register := by simpa using List.find?_some hv
  refine ⟨v, mem_uniforms_iff.2 ?_, hregister⟩
  rwa [hregister]

end

end Bytecode
end ShaderKit
