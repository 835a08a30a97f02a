import ShaderKit.Proofs.GuardedReading
import ShaderKit.Proofs.ShaderReading
import ShaderKit.Proofs.TableReading
import ShaderKit.Proofs.UniformCover

/-!
# Uniforms under guard

Register numbers are words, and they are counted with: the files of float registers lie one behind
the other, the registers of a constant are a row with an end, and a run of defined registers is
walked down and up.

The numbers start out small, because they are bits of words of the shader or half words of its table
(`Statement.Fits`).  So the sums fit (`yields_constant?`, `yields_covers`), and a run, which is a
run of defined registers, ends before the numbers do (`yields_runEnd`).  What comes out are the
uniforms that there are without guard (`yields_uniforms`).
-/

set_option autoImplicit false

namespace ShaderKit
namespace Bytecode

/-! ## Small numbers -/

/-- The constant registers of a file have numbers below. -/
def registerLimit : Nat := 0x2000

/-- The numbers of entries are below. -/
def halfWordLimit : Nat := 0x10000

theorem Register.number_ofWord_lt (w : UInt32) : (Register.ofWord w).number < 0x800 := by
  rw [Register.ofWord_eq]
  exact bits_lt w 0 11

theorem Register.number_lt_of_constant? {r : Register} {c : ConstantRegister}
    (hr : r.number < 0x800) (h : r.constant? = some c) : c.number < registerLimit := by
  rw [Register.constant?] at h
  rw [registerLimit]
  split at h <;> cases h <;> dsimp only <;> omega

theorem numberAt_two_lt (bytes : List UInt8) (offset : Nat) :
    numberAt bytes offset 2 < halfWordLimit := by
  have hlow := (bytes.drop offset).getD 0 0 |>.toNat_lt
  have hhigh := (bytes.drop offset).getD 1 0 |>.toNat_lt
  rw [← halfWordAt_eq, halfWordAt, halfWordLimit]
  omega

/-- The numbers of an entry are half words. -/
structure TableEntry.Fits (e : TableEntry) : Prop where
  registerIndex : e.registerIndex < halfWordLimit
  registerCount : e.registerCount < halfWordLimit

theorem ConstantTable.fits_of_parse {bytes : List UInt8} {t : ConstantTable}
    (h : ConstantTable.parse bytes = .ok t) : ∀ e ∈ t.constants, e.Fits := by
  intro e he
  obtain ⟨i, hi⟩ := List.mem_iff_getElem?.1 he
  have hread := (ConstantTable.parse_eq_ok_iff.1 h).2.constants i e hi
  refine ⟨?_, ?_⟩
  · rw [hread.registerIndex]
    exact numberAt_two_lt _ _
  · rw [hread.registerCount]
    exact numberAt_two_lt _ _

/-- The numbers in a statement are as small as an item makes them. -/
structure Statement.Fits (st : Statement) : Prop where
  constant? : ∀ c ∈ st.constant?, c.index < registerLimit
  table? : ∀ t ∈ st.table?, ∀ e ∈ t.constants, e.Fits

namespace Item

variable {i : Item}

theorem index_lt_of_constant? {c : Constant} (h : i.constant? = some c) :
    c.index < registerLimit := by
  rw [constant?] at h
  split at h
  · obtain ⟨r, hr, rfl⟩ := Option.map_eq_some_iff.1 h
    rw [← Register.ofWord_eq] at hr
    exact Register.number_lt_of_constant? (Register.number_ofWord_lt _) hr
  · cases h

theorem fits_of_table? {t : ConstantTable} (h : i.table? = some t) :
    ∀ e ∈ t.constants, e.Fits := by
  rw [table?] at h
  split at h
  · rename_i words _ _
    split at h
    · cases hparse : ConstantTable.parse (bytesOfWords words) with
      | error e =>
        rw [hparse] at h
        cases h
      | ok read =>
        rw [hparse] at h
        cases h
        exact ConstantTable.fits_of_parse hparse
    · cases h
  · cases h

/-- What an item says has small numbers. -/
theorem fits_said (v : Version) (i : Item) : (i.said v).Fits := by
  have hsaid := contributes_said v i
  refine ⟨fun c hc => ?_, fun t ht => ?_⟩
  · rw [hsaid.constant?] at hc
    exact index_lt_of_constant? hc
  · rw [hsaid.table?] at ht
    exact fits_of_table? ht

end Item

namespace Guarded

variable {ε : Type}

/-! ## Registers -/

/-- The constant register that a register is. -/
def constant? (r : Register) : Guarded ε (Option ConstantRegister) :=
  match r.file with
  | 2 => return some ⟨.float, r.number⟩
  | 11 => return some ⟨.float, ← addWord r.number 2048⟩
  | 12 => return some ⟨.float, ← addWord r.number 4096⟩
  | 13 => return some ⟨.float, ← addWord r.number 6144⟩
  | 7 => return some ⟨.int, r.number⟩
  | 14 => return some ⟨.bool, r.number⟩
  | _ => return none

theorem yields_constant? {r : Register} (hr : r.number < 0x800) :
    Yields (constant? r : Guarded ε (Option ConstantRegister)) (.ok r.constant?) := by
  obtain ⟨file, number, relative⟩ := r
  dsimp only at hr
  have hadd {n : Nat} (hn : n ≤ 6144) :
      Yields (addWord number n : Guarded ε Nat) (.ok (number + n)) :=
    yields_fitting (by rw [wordLimit]; omega)
  by_cases hfile : file = 2 ∨ file = 11 ∨ file = 12 ∨ file = 13 ∨ file = 7 ∨ file = 14
  · rcases hfile with rfl | rfl | rfl | rfl | rfl | rfl
    · exact yields_pure _
    · exact (hadd (by decide)).bind_ok (yields_pure _)
    · exact (hadd (by decide)).bind_ok (yields_pure _)
    · exact (hadd (by decide)).bind_ok (yields_pure _)
    · exact yields_pure _
    · exact yields_pure _
  · -- no other register is one of constants
    simp only [not_or] at hfile
    obtain ⟨h2, h11, h12, h13, h7, h14⟩ := hfile
    have hguarded : (constant? ⟨file, number, relative⟩ : Guarded ε _) = pure none := by
      simp only [constant?]
    have hplain : Register.constant? ⟨file, number, relative⟩ = none := by
      simp only [Register.constant?]
    rw [hguarded, hplain]
    exact yields_pure none

/-- The reference that an operand of an instruction is. -/
def reference? (operand : UInt32) : Guarded ε (Option Reference) :=
  if (operand &&& 0x80000000) = 0 then return none
  else do
    let r := Register.ofWord operand
    return (← constant? r).map fun register => ⟨register, r.relative⟩

theorem yields_reference? (operand : UInt32) :
    Yields (reference? operand : Guarded ε (Option Reference))
      (.ok (Bytecode.reference? operand)) := by
  rw [reference?, Bytecode.reference?]
  split
  · exact yields_pure _
  · exact (yields_constant? (Register.number_ofWord_lt operand)).bind_ok (yields_pure _)

/-! ## The table -/

/-- Whether a register belongs to a constant. -/
def covers (e : TableEntry) (set : RegisterSet) (register : Nat) : Guarded ε Bool := do
  let stop ← addWord e.registerIndex (max e.registerCount 1)
  return e.registerSet = set && e.registerIndex ≤ register && register < stop

/-- The first constant that a register belongs to. -/
def findCovering? (set : RegisterSet) (register : Nat) :
    List TableEntry → Guarded ε (Option TableEntry)
  | [] => return none
  | e :: entries => do
    if ← covers e set register then return some e else findCovering? set register entries

/-- The first constant of a table, if there is one, that a register belongs to. -/
def find? (table : Option ConstantTable) (set : RegisterSet) (register : Nat) :
    Guarded ε (Option TableEntry) :=
  match table with
  | some t => findCovering? set register t.constants
  | none => return none

section

variable {set : RegisterSet} {register : Nat}

theorem yields_covers {e : TableEntry} (he : e.Fits) :
    Yields (covers e set register : Guarded ε Bool) (.ok (e.covers set register)) := by
  obtain ⟨hindex, hcount⟩ := he
  rw [halfWordLimit] at hindex hcount
  exact (yields_fitting (by rw [wordLimit]; omega)).bind_ok (yields_pure _)

theorem yields_findCovering? {entries : List TableEntry} (hfits : ∀ e ∈ entries, e.Fits) :
    Yields (findCovering? set register entries : Guarded ε (Option TableEntry))
      (.ok (entries.find? (·.covers set register))) := by
  induction entries with
  | nil => exact yields_pure none
  | cons e entries ih =>
    obtain ⟨he, hentries⟩ := List.forall_mem_cons.1 hfits
    refine (yields_covers he).bind_ok ?_
    rw [List.find?_cons]
    cases e.covers set register with
    | true => exact yields_pure _
    | false => exact ih hentries

theorem yields_find? {table : Option ConstantTable}
    (hfits : ∀ t ∈ table, ∀ e ∈ t.constants, e.Fits) :
    Yields (find? table set register : Guarded ε (Option TableEntry))
      (.ok (table.bind (·.find? set register))) := by
  cases table with
  | none => exact yields_pure none
  | some t => exact yields_findCovering? (hfits t rfl)

end

/-! ## Runs -/

/-- The first number of a run of members that reaches down from `start`, in so many rounds. -/
def runStart (member : Nat → Bool) : (rounds start : Nat) → Guarded ε Nat
  | 0, _ => trap .stalled
  | rounds + 1, start =>
    if 0 < start then do
      if member (← subtract start 1) then runStart member rounds (← subtract start 1)
      else return start
    else return start

/-- The number behind a run of members that reaches up from `stop`, in so many rounds. -/
def runEnd (member : Nat → Bool) : (rounds stop : Nat) → Guarded ε Nat
  | 0, _ => trap .stalled
  | rounds + 1, stop =>
    if member stop then do runEnd member rounds (← addWord stop 1)
    else return stop

/-- The uniform for the run of defined registers around a register. -/
def runUniform (constants : List Constant) (r : ConstantRegister) : Guarded ε Uniform := do
  let start ← runStart (definedAt constants r.type) (r.number + 1) r.number
  let stop ← runEnd (definedAt constants r.type) (constants.length + 1) (← addWord r.number 1)
  let count ← subtract stop start
  return { index := start, type := r.type, arrayCount := if count > 1 then count else 0,
           constant := true, name := none }

section

variable {member : Nat → Bool}

theorem yields_runStart {rounds start : Nat} (hrounds : start < rounds) :
    Yields (runStart member rounds start : Guarded ε Nat)
      (.ok (Bytecode.runStart member start)) := by
  induction rounds generalizing start with
  | zero => omega
  | succ rounds ih =>
    cases start with
    | zero => exact yields_pure 0
    | succ start =>
      have hbelow : Yields (subtract (start + 1) 1 : Guarded ε Nat) (.ok start) :=
        yields_subtract (Nat.le_add_left 1 start)
      rw [runStart, if_pos (Nat.succ_pos start), Bytecode.runStart]
      refine hbelow.bind_ok ?_
      cases member start with
      | true => exact hbelow.bind_ok (ih (by omega))
      | false => exact yields_pure _

/-- There is a round to spare for the number behind the run. -/
theorem yields_runEnd (hsmall : ∀ n, member n = true → n < registerLimit) {fuel stop : Nat}
    (hbehind : member (Bytecode.runEnd member fuel stop) = false) :
    Yields (runEnd member (fuel + 1) stop : Guarded ε Nat)
      (.ok (Bytecode.runEnd member fuel stop)) := by
  induction fuel generalizing stop with
  | zero =>
    rw [Bytecode.runEnd] at hbehind
    rw [runEnd, hbehind]
    exact yields_pure stop
  | succ fuel ih =>
    rw [runEnd]
    rw [Bytecode.runEnd] at hbehind ⊢
    cases hmember : member stop with
    | true =>
      rw [hmember] at hbehind
      have hstop := hsmall stop hmember
      rw [registerLimit] at hstop
      exact (yields_fitting (by rw [wordLimit]; omega)).bind_ok (ih hbehind)
    | false => exact yields_pure stop

end

section

variable {constants : List Constant} {table : Option ConstantTable}

theorem lt_registerLimit_of_definedAt (hconstants : ∀ c ∈ constants, c.index < registerLimit)
    {type : ConstantType} (n : Nat) (h : definedAt constants type n = true) :
    n < registerLimit := by
  obtain ⟨c, hc, hindex⟩ : ∃ c ∈ constants, c.value.type = type ∧ c.index = n := by
    simpa [definedAt, isDefined] using h
  exact hindex.2 ▸ hconstants c hc

theorem yields_runUniform (hconstants : ∀ c ∈ constants, c.index < registerLimit)
    {r : ConstantRegister} (hdefined : isDefined constants r = true) :
    Yields (runUniform constants r : Guarded ε Uniform)
      (.ok (Bytecode.runUniform constants r)) := by
  have hsmall : r.number < registerLimit := lt_registerLimit_of_definedAt hconstants _ hdefined
  have hstart := runStart_le (definedAt constants r.type) r.number
  have hstop := le_runEnd (definedAt constants r.type) constants.length (r.number + 1)
  rw [registerLimit] at hsmall
  refine (yields_runStart (Nat.lt_succ_self r.number)).bind_ok ?_
  refine (yields_fitting (by rw [wordLimit]; omega)).bind_ok ?_
  refine (yields_runEnd (lt_registerLimit_of_definedAt hconstants)
    (not_definedAt_runEnd hdefined)).bind_ok ?_
  exact (yields_subtract (by omega)).bind_ok (yields_pure _)

/-! ## Uniforms -/

/-- The uniform that a reference leads to if it does not lead to an array of the table; the entry of
the register gives a name at most. -/
def withoutArray (constants : List Constant) (entry : Option TableEntry) (r : Reference) :
    Guarded ε (Option Uniform) :=
  if isDefined constants r.register then
    if r.relative then do return some (← runUniform constants r.register) else return none
  else
    return some { index := r.register.number, type := r.register.type, arrayCount := 0,
                  constant := false, name := entry.map (·.name) }

/-- The uniform that a reference leads to. -/
def uniform? (constants : List Constant) (table : Option ConstantTable) (r : Reference) :
    Guarded ε (Option Uniform) := do
  let entry ← find? table (registerSet r.register.type) r.register.number
  match entry with
  | some e =>
    if r.relative || e.registerCount > 1 then
      return some (entryUniform constants r.register e)
    else withoutArray constants entry r
  | none => withoutArray constants entry r

/-- The uniforms of a shader. -/
def uniforms (references : List Reference) (constants : List Constant)
    (table : Option ConstantTable) : Guarded ε (List Uniform) := do
  let found ← (mergeReferences references).mapM (uniform? constants table)
  return (found.filterMap id).foldl (fun l u => insertUniform u l) []

theorem yields_withoutArray (hconstants : ∀ c ∈ constants, c.index < registerLimit)
    (r : Reference) :
    Yields (withoutArray constants (entryFor? table r.register) r : Guarded ε (Option Uniform))
      (.ok (if isDefined constants r.register then
        if r.relative then some (Bytecode.runUniform constants r.register) else none
      else some (singleUniform table r.register))) := by
  rw [withoutArray]
  cases hdefined : isDefined constants r.register with
  | false => exact yields_pure _
  | true =>
    cases r.relative with
    | true => exact (yields_runUniform hconstants hdefined).bind_ok (yields_pure _)
    | false => exact yields_pure _

theorem yields_uniform? (hconstants : ∀ c ∈ constants, c.index < registerLimit)
    (htable : ∀ t ∈ table, ∀ e ∈ t.constants, e.Fits) (r : Reference) :
    Yields (uniform? constants table r : Guarded ε (Option Uniform))
      (.ok (Bytecode.uniform? constants table r)) := by
  have hother : Yields (withoutArray constants (entryFor? table r.register) r :
      Guarded ε (Option Uniform)) _ := yields_withoutArray hconstants r
  refine (yields_find? htable).bind_ok ?_
  rw [uniform?_eq]
  change Yields (match entryFor? table r.register with | some e => _ | none => _) _
  cases entryFor? table r.register with
  | none => exact hother
  | some e =>
    dsimp only
    split
    · exact yields_pure _
    · exact hother

/-- **Uniforms are found without a trap.** -/
theorem yields_uniforms (hconstants : ∀ c ∈ constants, c.index < registerLimit)
    (htable : ∀ t ∈ table, ∀ e ∈ t.constants, e.Fits) (references : List Reference) :
    Yields (uniforms references constants table : Guarded ε (List Uniform))
      (.ok (Bytecode.uniforms references constants table)) := by
  refine (yields_mapM fun r _ => yields_uniform? hconstants htable r).bind_ok ?_
  rw [List.filterMap_map]
  exact yields_pure _

end

end Guarded
end Bytecode
end ShaderKit
