import Mathlib.Data.List.Perm.Subperm
import ShaderKit.Proofs.RegisterOrder
import ShaderKit.Proofs.ShaderReading

/-!
# The registers that uniforms stand for

A uniform stands for a range of registers (`Uniform.Covers`).  There are three kinds of uniforms
that a reference leads to: what the constant table has for its register, the run of defined
registers around it, and the register alone (`LeadsTo`).  All of them cover the register that they
come from.  A run is the whole one (`runUniform_covers_iff_forall`): the fuel that it is looked for
with is enough.

Uniforms that begin at one register displace each other, whatever their kinds.  If the entries of
the constant table are apart, no register that the bytecode leaves undefined gets lost that way
(`exists_covers_of_not_isDefined`): an entry is displaced only by itself
(`LeadsTo.eq_entryUniform`), since a run that displaced it would come from an earlier register,
which the entry would have to cover, too.
-/

set_option autoImplicit false

namespace ShaderKit
namespace Bytecode

/-! ## Ranges -/

/-- The uniform stands for the register, maybe among others. -/
def Uniform.Covers (u : Uniform) (r : ConstantRegister) : Prop :=
  u.type = r.type ∧ u.index ≤ r.number ∧ r.number < u.index + max 1 u.arrayCount

/-- The entry of the table that a register belongs to. -/
def entryFor? (table : Option ConstantTable) (r : ConstantRegister) : Option TableEntry :=
  table.bind (·.find? (registerSet r.type) r.number)

/-- No register belongs to two entries that differ. -/
def ConstantTable.IsDisjoint (t : ConstantTable) : Prop :=
  ∀ e ∈ t.constants, ∀ f ∈ t.constants, ∀ set n,
    e.covers set n = true → f.covers set n = true → e = f

theorem TableEntry.covers_iff {e : TableEntry} {set : RegisterSet} {n : Nat} :
    e.covers set n = true ↔
      e.registerSet = set ∧ e.registerIndex ≤ n ∧ n < e.registerIndex + max e.registerCount 1 := by
  simp [TableEntry.covers, and_assoc]

theorem covers_of_entryFor? {table : Option ConstantTable} {r : ConstantRegister} {e : TableEntry}
    (h : entryFor? table r = some e) : e.covers (registerSet r.type) r.number = true := by
  obtain ⟨t, -, hfind⟩ := Option.bind_eq_some_iff.1 h
  rw [ConstantTable.find?] at hfind
  exact List.find?_some (p := fun f : TableEntry => f.covers (registerSet r.type) r.number) hfind

/-- If the entries are apart, then any that covers a register is the one that is found for it. -/
theorem entryFor?_of_covers {table : Option ConstantTable}
    (hdisjoint : ∀ t ∈ table, t.IsDisjoint) {r s : ConstantRegister} {e : TableEntry}
    (hr : entryFor? table r = some e) (hs : e.covers (registerSet s.type) s.number = true) :
    entryFor? table s = some e := by
  obtain ⟨t, ht, hfind⟩ := Option.bind_eq_some_iff.1 hr
  rw [ConstantTable.find?] at hfind
  have he : e ∈ t.constants := List.mem_of_find?_eq_some hfind
  have hsome : (t.find? (registerSet s.type) s.number).isSome = true :=
    List.find?_isSome.2 ⟨e, he, hs⟩
  obtain ⟨f, hf⟩ := Option.isSome_iff_exists.1 hsome
  have hsf : entryFor? table s = some f := Option.bind_eq_some_iff.2 ⟨t, ht, hf⟩
  rw [ConstantTable.find?] at hf
  have hfmem : f ∈ t.constants := List.mem_of_find?_eq_some hf
  rwa [hdisjoint t ht e he f hfmem _ _ hs (covers_of_entryFor? hsf)]

/-! ## Runs -/

theorem runStart_le (member : Nat → Bool) (n : Nat) : runStart member n ≤ n := by
  induction n with
  | zero => exact Nat.le_refl 0
  | succ n ih =>
    rw [runStart]
    split
    · omega
    · omega

theorem member_of_runStart_le {member : Nat → Bool} {n k : Nat} (hstart : runStart member n ≤ k)
    (hk : k < n) : member k = true := by
  induction n with
  | zero => omega
  | succ n ih =>
    rw [runStart] at hstart
    split at hstart
    · rename_i hmember
      by_cases h : k = n
      · rwa [h]
      · exact ih hstart (by omega)
    · omega

theorem le_runEnd (member : Nat → Bool) (fuel n : Nat) : n ≤ runEnd member fuel n := by
  induction fuel generalizing n with
  | zero => exact Nat.le_refl n
  | succ fuel ih =>
    rw [runEnd]
    split
    · have hnext := ih (n + 1)
      omega
    · omega

theorem member_of_lt_runEnd {member : Nat → Bool} {fuel n k : Nat} (hk : n ≤ k)
    (hend : k < runEnd member fuel n) : member k = true := by
  induction fuel generalizing n with
  | zero =>
    rw [runEnd] at hend
    omega
  | succ fuel ih =>
    rw [runEnd] at hend
    split at hend
    · rename_i hmember
      by_cases h : k = n
      · rwa [h]
      · exact ih (by omega) hend
    · omega

/-- A run goes on until there is a number that is no member, or no fuel is left. -/
theorem runEnd_eq_of_member {member : Nat → Bool} {fuel n : Nat}
    (h : member (runEnd member fuel n) = true) : runEnd member fuel n = n + fuel := by
  induction fuel generalizing n with
  | zero => rfl
  | succ fuel ih =>
    rw [runEnd] at h ⊢
    split at h
    · rename_i hmember
      rw [if_pos hmember, ih h]
      omega
    · contradiction

/-- A run begins at the first number, or behind one that is no member. -/
theorem runStart_eq_zero_or (member : Nat → Bool) (n : Nat) :
    runStart member n = 0 ∨ member (runStart member n - 1) = false := by
  induction n with
  | zero => exact Or.inl rfl
  | succ n ih =>
    rw [runStart]
    split
    · exact ih
    · rename_i hmember
      exact Or.inr (by simpa using hmember)

/-- Whether the bytecode defines the register of that number. -/
def definedAt (constants : List Constant) (type : ConstantType) (n : Nat) : Bool :=
  isDefined constants ⟨type, n⟩

/-- The uniform for the run of defined registers around a register. -/
def runUniform (constants : List Constant) (r : ConstantRegister) : Uniform :=
  let start := runStart (definedAt constants r.type) r.number
  let count := runEnd (definedAt constants r.type) constants.length (r.number + 1) - start
  { index := start, type := r.type, arrayCount := if count > 1 then count else 0,
    constant := true, name := none }

theorem runUniform_covers_iff {constants : List Constant} {r s : ConstantRegister} :
    (runUniform constants r).Covers s ↔
      r.type = s.type ∧ runStart (definedAt constants r.type) r.number ≤ s.number ∧
        s.number < runEnd (definedAt constants r.type) constants.length (r.number + 1) := by
  have hstart := runStart_le (definedAt constants r.type) r.number
  have hend := le_runEnd (definedAt constants r.type) constants.length (r.number + 1)
  simp only [Uniform.Covers, runUniform]
  refine and_congr_right fun _ => and_congr_right fun _ => ?_
  split
  · omega
  · omega

theorem isDefined_of_runUniform_covers {constants : List Constant} {r s : ConstantRegister}
    (hr : isDefined constants r = true) (hs : (runUniform constants r).Covers s) :
    isDefined constants s = true := by
  obtain ⟨htype, hstart, hend⟩ := runUniform_covers_iff.1 hs
  obtain ⟨type, n⟩ := s
  obtain ⟨_, m⟩ := r
  cases htype
  rcases Nat.lt_trichotomy n m with hlt | rfl | hgt
  · exact member_of_runStart_le hstart hlt
  · exact hr
  · exact member_of_lt_runEnd hgt hend

/-- **A run is looked for far enough.**  The number behind it is not defined, since each register of
the run takes a constant of its own. -/
theorem not_definedAt_runEnd {constants : List Constant} {type : ConstantType} {n : Nat}
    (hn : definedAt constants type n = true) :
    definedAt constants type (runEnd (definedAt constants type) constants.length (n + 1)) =
      false := by
  by_contra hbehind
  rw [Bool.not_eq_false] at hbehind
  have hend := runEnd_eq_of_member hbehind
  have hsubset : List.range' n (constants.length + 1) ⊆ constants.map (·.index) := by
    intro k hk
    obtain ⟨hle, hlt⟩ := List.mem_range'_1.1 hk
    have hdefined : definedAt constants type k = true := by
      rcases Nat.eq_or_lt_of_le hle with rfl | hlater
      · exact hn
      · exact member_of_lt_runEnd hlater (by rw [hend]; omega)
    obtain ⟨c, hc, hindex⟩ : ∃ c ∈ constants, c.value.type = type ∧ c.index = k := by
      simpa [definedAt, isDefined] using hdefined
    exact List.mem_map.2 ⟨c, hc, hindex.2⟩
  have hdistinct : (List.range' n (constants.length + 1)).Nodup := List.nodup_range'
  have hlength := (List.subperm_of_subset hdistinct hsubset).length_le
  rw [List.length_range', List.length_map] at hlength
  omega

/-- A run has the registers that lie together with its own one among defined registers. -/
theorem runUniform_covers_iff_forall {constants : List Constant} {r s : ConstantRegister}
    (hr : isDefined constants r = true) :
    (runUniform constants r).Covers s ↔
      r.type = s.type ∧ ∀ n, min r.number s.number ≤ n → n ≤ max r.number s.number →
        definedAt constants r.type n = true := by
  have hstart := runStart_le (definedAt constants r.type) r.number
  have hend := le_runEnd (definedAt constants r.type) constants.length (r.number + 1)
  constructor
  · intro h
    obtain ⟨htype, hlow, hhigh⟩ := runUniform_covers_iff.1 h
    refine ⟨htype, fun n hmin hmax => ?_⟩
    have hcovers : (runUniform constants r).Covers ⟨r.type, n⟩ :=
      runUniform_covers_iff.2 ⟨rfl, by change _ ≤ n; omega, by change n < _; omega⟩
    exact isDefined_of_runUniform_covers hr hcovers
  · rintro ⟨htype, hall⟩
    have hlow : runStart (definedAt constants r.type) r.number ≤ s.number := by
      rcases runStart_eq_zero_or (definedAt constants r.type) r.number with hzero | hgap
      · omega
      · by_contra hlow
        rw [hall _ (by omega) (by omega)] at hgap
        cases hgap
    have hhigh :
        s.number < runEnd (definedAt constants r.type) constants.length (r.number + 1) := by
      by_contra hhigh
      have hgap : definedAt constants r.type
          (runEnd (definedAt constants r.type) constants.length (r.number + 1)) = false :=
        not_definedAt_runEnd hr
      rw [hall _ (by omega) (by omega)] at hgap
      cases hgap
    exact runUniform_covers_iff.2 ⟨htype, hlow, hhigh⟩

/-! ## Kinds of uniforms -/

/-- The uniform for an entry of the table, if the register leads to it. -/
def entryUniform (constants : List Constant) (r : ConstantRegister) (e : TableEntry) : Uniform where
  index := e.registerIndex
  type := r.type
  arrayCount := e.registerCount
  constant := isDefined constants r
  name := some e.name

/-- The uniform for a register alone. -/
def singleUniform (table : Option ConstantTable) (r : ConstantRegister) : Uniform where
  index := r.number
  type := r.type
  arrayCount := 0
  constant := false
  name := (entryFor? table r).map (·.name)

section

variable (constants : List Constant) (table : Option ConstantTable)

/-- The uniform that a reference leads to. -/
inductive LeadsTo (r : Reference) : Uniform → Prop where
  /-- The entry that the table has for the register. -/
  | entry {e : TableEntry} (hentry : entryFor? table r.register = some e)
      (hspan : r.relative = true ∨ 1 < e.registerCount) :
      LeadsTo r (entryUniform constants r.register e)
  /-- The run of defined registers around the register, of which the table has none. -/
  | run (hnone : entryFor? table r.register = none)
      (hdefined : isDefined constants r.register = true) (hrelative : r.relative = true) :
      LeadsTo r (runUniform constants r.register)
  /-- The register alone. -/
  | single (hundefined : isDefined constants r.register = false)
      (halone : ∀ e, entryFor? table r.register = some e →
        r.relative = false ∧ e.registerCount ≤ 1) :
      LeadsTo r (singleUniform table r.register)

theorem uniform?_eq (r : Reference) :
    uniform? constants table r =
      let other :=
        if isDefined constants r.register then
          if r.relative then some (runUniform constants r.register) else none
        else some (singleUniform table r.register)
      match entryFor? table r.register with
      | some e =>
        if r.relative || e.registerCount > 1 then some (entryUniform constants r.register e)
        else other
      | none => other := rfl

variable {constants table}

theorem leadsTo_of_uniform? {r : Reference} {u : Uniform}
    (h : uniform? constants table r = some u) : LeadsTo constants table r u := by
  rw [uniform?_eq] at h
  dsimp only at h
  cases hentry : entryFor? table r.register with
  | none =>
    rw [hentry] at h
    cases hdefined : isDefined constants r.register with
    | true =>
      cases hrelative : r.relative with
      | true =>
        obtain rfl : runUniform constants r.register = u := by simpa [hdefined, hrelative] using h
        exact .run hentry hdefined hrelative
      | false => simp [hdefined, hrelative] at h
    | false =>
      obtain rfl : singleUniform table r.register = u := by simpa [hdefined] using h
      exact .single hdefined (by simp [hentry])
  | some e =>
    rw [hentry] at h
    by_cases hspan : r.relative = true ∨ 1 < e.registerCount
    · obtain rfl : entryUniform constants r.register e = u := by simpa [hspan] using h
      exact .entry hentry hspan
    · obtain ⟨hrelative, hcount⟩ : r.relative = false ∧ e.registerCount ≤ 1 := by
        simpa [not_or] using hspan
      cases hdefined : isDefined constants r.register with
      | true => simp [hrelative, Nat.not_lt.2 hcount, hdefined] at h
      | false =>
        obtain rfl : singleUniform table r.register = u := by
          simpa [hrelative, Nat.not_lt.2 hcount, hdefined] using h
        refine .single hdefined fun f hf => ?_
        obtain rfl : e = f := by simpa [hentry] using hf
        exact ⟨hrelative, hcount⟩

theorem uniform?_of_leadsTo {r : Reference} {u : Uniform} (h : LeadsTo constants table r u) :
    uniform? constants table r = some u := by
  rw [uniform?_eq]
  dsimp only
  cases h with
  | entry hentry hspan => simp [hentry, hspan]
  | run hnone hdefined hrelative => simp [hnone, hdefined, hrelative]
  | single hundefined halone =>
    cases hentry : entryFor? table r.register with
    | none => simp [hundefined]
    | some e =>
      obtain ⟨hrelative, hcount⟩ := halone e hentry
      simp [hundefined, hrelative, Nat.not_lt.2 hcount]

/-- A register that is not defined leads to a uniform. -/
theorem exists_leadsTo_of_not_isDefined {r : Reference}
    (hundefined : isDefined constants r.register = false) : ∃ u, LeadsTo constants table r u := by
  cases hentry : entryFor? table r.register with
  | none => exact ⟨_, .single hundefined (by simp [hentry])⟩
  | some e =>
    by_cases hspan : r.relative = true ∨ 1 < e.registerCount
    · exact ⟨_, .entry hentry hspan⟩
    · refine ⟨_, .single hundefined fun f hf => ?_⟩
      obtain rfl : e = f := by simpa [hentry] using hf
      simpa [not_or] using hspan

/-! ## Ranges of uniforms -/

theorem entryUniform_covers_iff {r s : ConstantRegister} {e : TableEntry}
    (hr : entryFor? table r = some e) :
    (entryUniform constants r e).Covers s ↔
      r.type = s.type ∧ e.covers (registerSet s.type) s.number = true := by
  obtain ⟨hset, -, -⟩ := TableEntry.covers_iff.1 (covers_of_entryFor? hr)
  rw [TableEntry.covers_iff, Uniform.Covers, entryUniform, Nat.max_comm]
  constructor
  · rintro ⟨htype, hrange⟩
    have hsame : r.type = s.type := htype
    exact ⟨htype, by rw [hset, hsame], hrange⟩
  · rintro ⟨htype, -, hrange⟩
    exact ⟨htype, hrange⟩

theorem singleUniform_covers_iff {r s : ConstantRegister} :
    (singleUniform table r).Covers s ↔ r = s := by
  rw [ConstantRegister.eq_iff]
  simp only [Uniform.Covers, singleUniform]
  refine and_congr_right fun _ => ?_
  omega

/-- The register that a uniform begins at is one that it covers. -/
theorem Uniform.covers_register (u : Uniform) : u.Covers u.register := by
  refine ⟨rfl, Nat.le_refl _, ?_⟩
  change u.index < u.index + max 1 u.arrayCount
  omega

/-- **A uniform covers the register that it comes from.** -/
theorem LeadsTo.covers {r : Reference} {u : Uniform} (h : LeadsTo constants table r u) :
    u.Covers r.register := by
  cases h with
  | entry hentry hspan =>
    exact (entryUniform_covers_iff hentry).2 ⟨rfl, covers_of_entryFor? hentry⟩
  | run hnone hdefined hrelative =>
    have hstart := runStart_le (definedAt constants r.register.type)
      r.register.number
    have hend := le_runEnd (definedAt constants r.register.type) constants.length
      (r.register.number + 1)
    exact runUniform_covers_iff.2 ⟨rfl, hstart, hend⟩
  | single hundefined halone => exact singleUniform_covers_iff.2 rfl

/-! ## No register is lost -/

/-- The register that an entry begins at belongs to it. -/
theorem entryFor?_first (hdisjoint : ∀ t ∈ table, t.IsDisjoint) {r : ConstantRegister}
    {e : TableEntry} (hr : entryFor? table r = some e) :
    entryFor? table ⟨r.type, e.registerIndex⟩ = some e := by
  obtain ⟨hset, -, -⟩ := TableEntry.covers_iff.1 (covers_of_entryFor? hr)
  refine entryFor?_of_covers hdisjoint hr (TableEntry.covers_iff.2 ⟨hset, Nat.le_refl _, ?_⟩)
  change e.registerIndex < e.registerIndex + max e.registerCount 1
  omega

/-- A uniform that is in the place of an entry's is the entry's, if it does not come from a later
register. -/
theorem LeadsTo.eq_entryUniform (hdisjoint : ∀ t ∈ table, t.IsDisjoint) {r s : Reference}
    {v : Uniform} (hv : LeadsTo constants table r v) {e : TableEntry}
    (hentry : entryFor? table s.register = some e)
    (hspan : s.relative = true ∨ 1 < e.registerCount)
    (hregister : v.register = (entryUniform constants s.register e).register)
    (hfirst : s = r ∨ r.register.before s.register = true) :
    v = entryUniform constants r.register e ∧ v.Covers s.register := by
  have hcovers := covers_of_entryFor? hentry
  obtain ⟨hset, hle, hlt⟩ := TableEntry.covers_iff.1 hcovers
  have hbegin := entryFor?_first hdisjoint hentry
  cases hv with
  | @entry f hentry' hspan' =>
    obtain ⟨htype, hindex⟩ :
        r.register.type = s.register.type ∧ f.registerIndex = e.registerIndex := by
      simpa [entryUniform, Uniform.register] using hregister
    have hbegin' := entryFor?_first hdisjoint hentry'
    rw [htype, hindex, hbegin, Option.some.injEq] at hbegin'
    subst hbegin'
    exact ⟨rfl, (entryUniform_covers_iff hentry').2 ⟨htype, hcovers⟩⟩
  | run hnone hdefined hrelative =>
    -- the run begins inside the entry and ends before it does, so the entry has its register, too
    obtain ⟨htype, hindex⟩ : r.register.type = s.register.type ∧
        (runUniform constants r.register).index = e.registerIndex := by
      simpa [entryUniform, Uniform.register, runUniform] using hregister
    have hstart : (runUniform constants r.register).index ≤ r.register.number :=
      runStart_le (definedAt constants r.register.type) r.register.number
    rcases hfirst with rfl | hbefore
    · rw [hnone] at hentry
      cases hentry
    · have hlater := ConstantRegister.number_lt_of_before htype hbefore
      have hinside : e.covers (registerSet r.register.type) r.register.number = true :=
        TableEntry.covers_iff.2 ⟨by rw [hset, htype], by omega, by omega⟩
      rw [entryFor?_of_covers hdisjoint hentry hinside] at hnone
      cases hnone
  | single hundefined halone =>
    -- the entry has one register only, and the register is not addressed relatively
    obtain ⟨htype, hnumber⟩ : r.register.type = s.register.type ∧
        r.register.number = e.registerIndex := by
      simpa [entryUniform, Uniform.register, singleUniform] using hregister
    have hr : r.register = ⟨s.register.type, e.registerIndex⟩ :=
      ConstantRegister.eq_iff.2 ⟨htype, hnumber⟩
    obtain ⟨hrelative, hcount⟩ := halone e (hr ▸ hbegin)
    have hnumber' : s.register.number = r.register.number := by omega
    have hs : s.register = r.register := ConstantRegister.eq_iff.2 ⟨htype.symm, hnumber'⟩
    rcases hfirst with rfl | hbefore
    · rcases hspan with hrelative' | hcount'
      · rw [hrelative] at hrelative'
        cases hrelative'
      · omega
    · rw [hs] at hbefore
      exact absurd hbefore (ConstantRegister.not_before_self _)

/-- For every reference to an entry that spans several registers, or that is addressed relatively,
there is the uniform of the entry, if the entries of the table are apart. -/
theorem exists_entryUniform {rs : List Reference} (hdisjoint : ∀ t ∈ table, t.IsDisjoint)
    {s : Reference} (hs : s ∈ mergeReferences rs) {e : TableEntry}
    (hentry : entryFor? table s.register = some e)
    (hspan : s.relative = true ∨ 1 < e.registerCount) :
    ∃ r, entryUniform constants r e ∈ uniforms rs constants table ∧
      (entryUniform constants r e).Covers s.register := by
  have hlead : uniform? constants table s = some (entryUniform constants s.register e) :=
    uniform?_of_leadsTo (.entry hentry hspan)
  obtain ⟨v, hv, hregister⟩ := exists_mem_uniforms hs hlead
  obtain ⟨r, -, hr, hfirst⟩ := exists_first_of_mem_uniforms hv
  obtain ⟨rfl, hcovers⟩ := (leadsTo_of_uniform? hr).eq_entryUniform hdisjoint hentry hspan
    hregister (hfirst s hs _ hlead hregister.symm)
  exact ⟨r.register, hv, hcovers⟩

/-- **No register that is referred to and not defined is lost**, if the entries of the table are
apart. -/
theorem exists_covers_of_not_isDefined {rs : List Reference}
    (hdisjoint : ∀ t ∈ table, t.IsDisjoint) {r : Reference} (hr : r ∈ rs)
    (hundefined : isDefined constants r.register = false) :
    ∃ u ∈ uniforms rs constants table, u.Covers r.register := by
  obtain ⟨s, hs, hsr⟩ := exists_mem_mergeReferences_iff.2 ⟨r, hr, rfl⟩
  rw [← hsr] at hundefined ⊢
  obtain ⟨u, hu⟩ := exists_leadsTo_of_not_isDefined hundefined
  cases hu with
  | @entry e hentry hspan =>
    obtain ⟨r', hr'⟩ : ∃ r', entryUniform constants r' e ∈ uniforms rs constants table ∧
        (entryUniform constants r' e).Covers s.register :=
      exists_entryUniform hdisjoint hs hentry hspan
    exact ⟨_, hr'⟩
  | run hnone hdefined hrelative =>
    rw [hundefined] at hdefined
    cases hdefined
  | single hundefined' halone =>
    obtain ⟨v, hv, hregister⟩ :=
      exists_mem_uniforms hs (uniform?_of_leadsTo (.single hundefined' halone))
    have hbegin : v.register = s.register := hregister
    exact ⟨v, hv, hbegin ▸ v.covers_register⟩

end

/-! ## Shaders -/

/-- Some instruction refers to the register. -/
def TokenStream.Refers (s : TokenStream) (r : ConstantRegister) : Prop :=
  ∃ ref ∈ s.references, ref.register = r

/-- One of the constants is the value of the register. -/
def ShaderReflection.Defines (s : ShaderReflection) (r : ConstantRegister) : Prop :=
  ∃ c ∈ s.constants, c.value.type = r.type ∧ c.index = r.number

theorem ShaderReflection.defines_iff {s : ShaderReflection} {r : ConstantRegister} :
    s.Defines r ↔ isDefined s.constants r = true := by
  simp [Defines, isDefined]

instance (s : ShaderReflection) (r : ConstantRegister) : Decidable (s.Defines r) :=
  decidable_of_iff _ s.defines_iff.symm

/-- Every uniform covers a register that some reference is to. -/
theorem exists_reference_of_mem_uniforms {rs : List Reference} {constants : List Constant}
    {table : Option ConstantTable} {u : Uniform} (hu : u ∈ uniforms rs constants table) :
    ∃ r ∈ rs, u.Covers r.register := by
  obtain ⟨s, hs, hlead, -⟩ := exists_first_of_mem_uniforms hu
  obtain ⟨r, hr, hrs⟩ := exists_mem_mergeReferences_iff.1 ⟨s, hs, rfl⟩
  exact ⟨r, hr, hrs ▸ (leadsTo_of_uniform? hlead).covers⟩

/-- **No constant register is lost.**  A shader that is read is a stream, and in its reflection
every register that an instruction refers to and that nothing defines is covered by a uniform, if
the entries of the constant table are apart.  Every uniform covers a register that an instruction
refers to, and the uniforms stand in the order of the registers that they begin at. -/
theorem readShader_uniforms (profile : String) (bytes : List UInt8)
    (haccepted : (readShader profile bytes).diagnostics = []) :
    (∃ s : TokenStream, s.bytes = bytes) ∧
      ∀ s : TokenStream, s.bytes = bytes →
        ((∀ t ∈ s.table?, t.IsDisjoint) → ∀ r, s.Refers r →
          ¬ (readShader profile bytes).Defines r →
          ∃ u ∈ (readShader profile bytes).uniforms, u.Covers r) ∧
        (∀ u ∈ (readShader profile bytes).uniforms, ∃ r, s.Refers r ∧ u.Covers r) ∧
        (readShader profile bytes).uniforms.Pairwise fun u v =>
          u.type.rank < v.type.rank ∨ u.type = v.type ∧ u.index < v.index := by
  obtain ⟨hprofile, hstream⟩ := exists_stream_of_diagnostics_eq_nil haccepted
  refine ⟨hstream, ?_⟩
  rintro s rfl
  rw [readShader_bytes hprofile]
  refine ⟨?_, ?_, ?_⟩
  · rintro hdisjoint r ⟨ref, href, rfl⟩ hundefined
    rw [ShaderReflection.defines_iff, Bool.not_eq_true] at hundefined
    exact exists_covers_of_not_isDefined hdisjoint href hundefined
  · intro u hu
    obtain ⟨ref, href, hcovers⟩ := exists_reference_of_mem_uniforms hu
    exact ⟨ref.register, ⟨ref, href, rfl⟩, hcovers⟩
  · have hordered : InOrder (uniforms s.references s.constants s.table?) := inOrder_uniforms _ _ _
    exact (List.pairwise_map.1 hordered).imp ConstantRegister.before_iff.1

/-- A vertex shader with a table of one matrix in `c0` to `c3`, of which it defines only `c0`, and
moves `c0` and `c2`. -/
def matrixStream : TokenStream where
  version := ⟨.vertex, 2, 0⟩
  items :=
    [⟨0x000EFFFE, [tableMark, 28, 0, 0xFFFE0200, 1, 28, 0, 0, 48, 2, 4, 0, 0, 0x6D]⟩,
     ⟨0x05000051, [0xA00F0000, 0x3F800000, 0, 0, 0]⟩,
     ⟨0x02000001, [0x800F0000, 0xA0E40000]⟩,
     ⟨0x02000001, [0x800F0000, 0xA0E40002]⟩]
  after := []
  supported := ⟨.inl rfl, by decide⟩
  shaped := by decide
  valid := by decide

theorem matrixStream_table? :
    matrixStream.table? = some ⟨none, none, [⟨String.ofList ['m'], .float4, 0, 4⟩]⟩ := by rfl

theorem matrixStream_isDisjoint : ∀ t ∈ matrixStream.table?, t.IsDisjoint := by
  rw [matrixStream_table?]
  rintro _ ⟨⟩ e he f hf - - - -
  rw [List.mem_singleton.1 he, List.mem_singleton.1 hf]

theorem readShader_matrixStream :
    readShader "glsl" matrixStream.bytes = matrixStream.reflection "glsl" :=
  readShader_bytes (by decide) matrixStream

theorem readShader_uniforms_matrixStream :
    (readShader "glsl" matrixStream.bytes).diagnostics = [] ∧
      (∃ u ∈ (readShader "glsl" matrixStream.bytes).uniforms, u.Covers ⟨.float, 2⟩) ∧
      (∀ u ∈ (readShader "glsl" matrixStream.bytes).uniforms,
        ∃ r, matrixStream.Refers r ∧ u.Covers r) := by
  have haccepted : (readShader "glsl" matrixStream.bytes).diagnostics = [] := by
    rw [readShader_matrixStream]
    rfl
  obtain ⟨-, hstream⟩ := readShader_uniforms "glsl" matrixStream.bytes haccepted
  obtain ⟨hcovered, hreferred, -⟩ := hstream matrixStream rfl
  have hrefers : matrixStream.Refers ⟨.float, 2⟩ := ⟨⟨⟨.float, 2⟩, false⟩, by decide, rfl⟩
  have hundefined : ¬ (readShader "glsl" matrixStream.bytes).Defines ⟨.float, 2⟩ := by
    rw [readShader_matrixStream]
    decide
  exact ⟨haccepted, hcovered matrixStream_isDisjoint _ hrefers hundefined, hreferred⟩

end Bytecode
end ShaderKit
