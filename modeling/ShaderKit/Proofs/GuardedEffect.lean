import ShaderKit.Proofs.EffectReading
import ShaderKit.Proofs.GuardedShader

/-!
# Effects under guard

A guarded reader of effects (`Guarded.readEffect`).  Where the reader without guard has what is left
of the bytes, it has a position, and takes bytes by their positions.  Ends are computed with sums
that may fail, lengths with products that may fail or stop at the greatest number; a name may lie
behind the end of the file.  Every loop asks each of its rounds for four bytes at least.

The guarded reader `Follows` the reader without guard from every position of the file; and what is
read has cost so many bytes.  This is kept when readers are put together (`Follows.bind`,
`follows_times`).  The cost of a technique has a share for each of its states, so that states can be
counted.  It follows that no reading is trapped (`yields_readEffect`).
-/

set_option autoImplicit false

namespace ShaderKit
namespace Bytecode
namespace Guarded

variable {ε α β : Type}

/-- Something that can be read from a position on. -/
abbrev Reading (α : Type) : Type := StateT Nat (Guarded EffectError) α

/-- A step that takes no bytes. -/
def step (x : Guarded EffectError α) : Reading α := StateT.lift x

/-! ## The reader -/

/-- The error that the bytes ran out, at a position which is told counting from one. -/
def unexpectedEnd (pos : Nat) : Guarded EffectError α := do
  let _ ← addSize pos 1
  throw (.unexpectedEnd pos)

section

variable (profile : String) (file : List UInt8)

/-- The next `size` bytes. -/
def take (size : Nat) : Reading (List UInt8) := fun pos =>
  match (checkedAdd? pos size).bind fun stop => (slice? file pos stop).map (·, stop) with
  | some found => pure found
  | none => unexpectedEnd pos

/-- The next word. -/
def word : Reading UInt32 := do step (wordOf (← take file 4))

/-- The next word, as a number of things to come. -/
def count : Reading Nat := do return (← word file).toNat

/-- Skips words. -/
def skipWords (size : Nat) : Reading Unit := fun pos =>
  match checkedMul? size 4 with
  | some length => do
    let (_, next) ← take file length pos
    return ((), next)
  | none => unexpectedEnd pos

/-- Reads the same thing a number of times.  Each time must get on by four bytes. -/
def times (reader : Reading α) : (n : Nat) → Reading (List α)
  | 0 => return []
  | n + 1 => fun pos => do
    let (a, next) ← reader pos
    if next < pos + 4 then trap .stalled
    else
      let (rest, stop) ← times reader n next
      return (a :: rest, stop)

/-- The text that comes next. -/
def readText : Reading String := do return nameOfBytes (← take file (← count file))

/-- The name at an offset of the string block. -/
def nameAt (offset : UInt32) : Guarded EffectError String := do
  return (← readText file (saturatingAdd stringsStart offset.toNat)).1

/-- The name whose offset comes next. -/
def readName : Reading String := do step (nameAt file (← word file))

/-- Skips annotations. -/
def skipAnnotations (n : Nat) : Reading Unit := skipWords file (saturatingMul n annotationSize)

/-- Skips a parameter. -/
def skipParameter : Reading Unit := do
  skipWords file 3
  skipAnnotations file (← count file)

/-- The type of the next state; its value is skipped. -/
def readState : Reading UInt32 := do
  let type ← word file
  skipWords file 3
  return type

/-- The next pass.  Both counts come before what they count. -/
def readPass : Reading Pass := do
  let name ← readName file
  let annotations ← count file
  let states ← count file
  skipAnnotations file annotations
  return ⟨name, ← times (readState file) states⟩

/-- The next technique, with its passes behind it. -/
def readTechnique : Reading Technique := do
  let name ← readName file
  let annotations ← count file
  let passes ← count file
  skipAnnotations file annotations
  return ⟨name, ← times (readPass file) passes⟩

/-- The next texture. -/
def readTexture : Reading Texture := do
  let parameter ← word file
  let size ← count file
  let name ← take file size
  let missing ← step (subtract 4 (size % 4))
  let _ ← take file (missing % 4)
  return ⟨nameOfBytes name, parameter⟩

/-- The next shader. -/
def readEffectShader : Reading EffectShader := do
  let technique ← word file
  let pass ← word file
  skipWords file 3
  let code ← take file (← count file)
  return ⟨technique, pass, ← step (readShader profile code)⟩

/-- Counts the states among some whose value is a shader. -/
def countShaders : (states : List UInt32) → (before : Nat) → Guarded ε Nat
  | [], before => return before
  | type :: states, before => do
    if isShaderState type then countShaders states (← addSize before 1)
    else countShaders states before

/-- Everything after the string block. -/
def readParts : Reading EffectReflection := do
  let parameters ← count file
  let techniqueCount ← count file
  skipWords file 2
  let _ ← times (skipParameter file) parameters
  let techniques ← times (readTechnique file) techniqueCount
  let textureCount ← count file
  let _ ← count file
  let textures ← times (readTexture file) textureCount
  let shaderCount ← step (countShaders ((techniques.flatMap (·.passes)).flatMap (·.states)) 0)
  let shaders ← times (readEffectShader profile file) shaderCount
  return { profile, techniques, textures, shaders }

/-- Everything after the mark. -/
def readBundle : Reading EffectReflection := do
  let _ ← take file (← count file)
  readParts profile file

/-- The reflection of a file, if nothing is wrong with it. -/
def effectReflection : Guarded EffectError EffectReflection :=
  if !isEffect file then throw .notAnEffect
  else do return (← readBundle profile file effectMark.length).1

/-- Reads an effect for a profile. -/
def readEffect : Guarded ε EffectReflection :=
  if Profile.isSupported profile then do
    match ← attempt (effectReflection profile file) with
    | .ok reflection => return reflection
    | .error e => return .failed profile [e.diagnostic]
  else return .failed profile [⟨none, 0, Profile.unsupportedMessage profile⟩]

end

/-! ## Following a reader -/

/-- From every position of the file, the guarded reader fails as the reader does, or comes to the
same result and the same place.  The result has cost bytes of the file. -/
def Follows (file : List UInt8) (cost : α → Nat) (g : Reading α) (r : Reader α) : Prop :=
  ∀ pos ≤ file.length,
    (∃ e, r ⟨pos, file.drop pos⟩ = .error e ∧ Yields (g pos) (.error e)) ∨
    ∃ a next, r ⟨pos, file.drop pos⟩ = .ok (a, ⟨next, file.drop next⟩) ∧
      Yields (g pos) (.ok (a, next)) ∧ pos + cost a ≤ next ∧ next ≤ file.length

section

variable {file : List UInt8} {cost : α → Nat} {g : Reading α} {r : Reader α}

theorem follows_pure {a : α} (hcost : cost a = 0) : Follows file cost (pure a) (pure a) := by
  intro pos hpos
  refine .inr ⟨a, pos, rfl, yields_pure _, ?_, hpos⟩
  rw [hcost]
  exact Nat.le_refl pos

theorem follows_step {x : Guarded EffectError α} {y : Except EffectError α} (hx : Yields x y)
    (hcost : ∀ a, cost a = 0) : Follows file cost (step x) (liftM y) := by
  intro pos hpos
  cases y with
  | error e => exact .inl ⟨e, rfl, hx.bind_error⟩
  | ok a =>
    refine .inr ⟨a, pos, rfl, hx.bind_ok (yields_pure _), ?_, hpos⟩
    rw [hcost]
    exact Nat.le_refl pos

/-- A step that the reader without guard does not take. -/
theorem Follows.step_bind {x : Guarded EffectError β} {b : β} {f : β → Reading α}
    (hx : Yields x (.ok b)) (hf : Follows file cost (f b) r) :
    Follows file cost (step x >>= f) r := by
  intro pos hpos
  rw [Yields] at hx
  subst hx
  exact hf pos hpos

/-- **One reader after another.**  The second has to account for what the first has not. -/
theorem Follows.bind (hg : Follows file cost g r) {total : β → Nat} {f : α → Reading β}
    {k : α → Reader β}
    (hf : ∀ a, cost a ≤ file.length → Follows file (fun b => total b - cost a) (f a) (k a)) :
    Follows file total (g >>= f) (r >>= k) := by
  intro pos hpos
  rcases hg pos hpos with ⟨e, hr, hyields⟩ | ⟨a, mid, hr, hyields, hcost, hmid⟩
  · exact .inl ⟨e, Reader.bind_of_error hr, hyields.bind_error⟩
  rcases hf a (by omega) mid hmid with ⟨e, hk, hthen⟩ | ⟨b, next, hk, hthen, hrest, hnext⟩
  · exact .inl ⟨e, (Reader.bind_of_ok hr).trans hk, hyields.bind_ok hthen⟩
  · dsimp only at hrest
    exact .inr ⟨b, next, (Reader.bind_of_ok hr).trans hk, hyields.bind_ok hthen, by omega, hnext⟩

/-- **A reader many times over**, if every time costs four bytes. -/
theorem follows_times (hg : Follows file cost g r) (hcost : ∀ a, 4 ≤ cost a) (n : Nat) :
    Follows file (fun l => (l.map cost).sum) (times g n) (Reader.times n r) := by
  induction n with
  | zero => exact follows_pure rfl
  | succ n ih =>
    intro pos hpos
    rw [Reader.times]
    rcases hg pos hpos with ⟨e, hr, hyields⟩ | ⟨a, mid, hr, hyields, hmore, hmid⟩
    · exact .inl ⟨e, Reader.bind_of_error hr, hyields.bind_error⟩
    have hround : ¬ mid < pos + 4 := by
      have hleast := hcost a
      omega
    rcases ih mid hmid with ⟨e, hrest, hthen⟩ | ⟨l, next, hrest, hthen, hsum, hnext⟩
    · refine .inl ⟨e, (Reader.bind_of_ok hr).trans (Reader.bind_of_error hrest), ?_⟩
      refine hyields.bind_ok ?_
      dsimp only
      rw [if_neg hround]
      exact hthen.bind_error
    · refine .inr ⟨a :: l, next, (Reader.bind_of_ok hr).trans (Reader.bind_of_ok hrest), ?_, ?_,
        hnext⟩
      · refine hyields.bind_ok ?_
        dsimp only
        rw [if_neg hround]
        exact hthen.bind_ok (yields_pure _)
      · dsimp only at hsum ⊢
        rw [List.map_cons, List.sum_cons]
        omega

end

/-! ## The parts of an effect -/

theorem yields_unexpectedEnd {pos : Nat} (hpos : pos ≤ 2 * wordLimit) :
    Yields (unexpectedEnd pos : Guarded EffectError α) (.error (.unexpectedEnd pos)) := by
  rw [wordLimit] at hpos
  exact (yields_fitting (by rw [sizeLimit]; omega)).bind_ok (yields_throw _)

section

variable {file : List UInt8} (hfile : file.length < wordLimit)

include hfile

/-- Bytes are taken if they are all there. -/
theorem take_of_le {pos size : Nat} (h : pos + size ≤ file.length) :
    Reader.bytes size ⟨pos, file.drop pos⟩ =
        .ok ((file.drop pos).take size, ⟨pos + size, file.drop (pos + size)⟩) ∧
      Yields (take file size pos) (.ok ((file.drop pos).take size, pos + size)) := by
  rw [wordLimit] at hfile
  have hsplit : splitOff? size (file.drop pos) =
      some ((file.drop pos).take size, file.drop (pos + size)) := by
    refine splitOff?_eq_some_iff.2 ⟨?_, ?_⟩
    · rw [← List.drop_drop, List.take_append_drop]
    · rw [List.length_take, List.length_drop]
      omega
  have hsum : checkedAdd? pos size = some (pos + size) := if_pos (by rw [sizeLimit]; omega)
  constructor
  · rw [Reader.bytes, hsplit]
  · rw [take, hsum, Option.bind_some, slice?_of_le (Nat.le_add_right pos size) h, List.drop_take,
      Nat.add_sub_cancel_left]
    exact yields_pure _

omit hfile in
/-- Bytes are not taken if one of them is missing. -/
theorem take_of_lt {pos size : Nat} (hpos : pos ≤ 2 * wordLimit) (h : file.length < pos + size)
    (hsize : size = 0 → pos ≤ file.length) :
    Reader.bytes size ⟨pos, file.drop pos⟩ = .error (.unexpectedEnd pos) ∧
      Yields (take file size pos) (.error (.unexpectedEnd pos)) := by
  have hsplit : splitOff? size (file.drop pos) = none := by
    cases hsome : splitOff? size (file.drop pos) with
    | none => rfl
    | some split =>
      obtain ⟨hdrop, hlength⟩ := splitOff?_eq_some_iff.1 hsome
      have hall := congrArg List.length hdrop
      rw [List.length_drop, List.length_append] at hall
      omega
  constructor
  · rw [Reader.bytes, hsplit]
  · have hnone : (checkedAdd? pos size).bind
        (fun stop => (slice? file pos stop).map (·, stop)) = none := by
      rw [checkedAdd?]
      split
      · rw [Option.bind_some, slice?, if_neg fun hboth => Nat.not_le.2 h hboth.2]
        rfl
      · rfl
    rw [take, hnone]
    exact yields_unexpectedEnd hpos

theorem follows_take (size : Nat) :
    Follows file List.length (take file size) (Reader.bytes size) := by
  intro pos hpos
  rcases Nat.lt_or_ge file.length (pos + size) with hlt | hle
  · obtain ⟨hr, hg⟩ := take_of_lt (by omega) hlt fun _ => hpos
    exact .inl ⟨_, hr, hg⟩
  · obtain ⟨hr, hg⟩ := take_of_le hfile hle
    refine .inr ⟨_, _, hr, hg, ?_, hle⟩
    rw [List.length_take]
    omega

theorem follows_word : Follows file (fun _ => 4) (word file) Reader.word := by
  intro pos hpos
  rcases Nat.lt_or_ge file.length (pos + 4) with hlt | hle
  · obtain ⟨hr, hg⟩ := take_of_lt (by omega) hlt fun _ => hpos
    exact .inl ⟨_, Reader.bind_of_error hr, hg.bind_error⟩
  · obtain ⟨hr, hg⟩ := take_of_le hfile hle
    have hlength : ((file.drop pos).take 4).length = 4 := by
      rw [List.length_take, List.length_drop]
      omega
    have hword : Yields (step (wordOf ((file.drop pos).take 4)) (pos + 4)) (.ok (_, pos + 4)) :=
      (yields_wordOf hlength).bind_ok (yields_pure _)
    exact .inr ⟨_, _, Reader.bind_of_ok hr, hg.bind_ok hword, Nat.le_refl _, hle⟩

theorem follows_count : Follows file (fun _ => 4) (count file) Reader.count :=
  (follows_word hfile).bind fun _ _ => follows_pure rfl

theorem follows_skipWords (size : Nat) :
    Follows file (fun _ => 0) (skipWords file size) (Reader.skipWords size) := by
  intro pos hpos
  rw [skipWords, checkedMul?, Nat.mul_comm size 4]
  rcases Nat.lt_or_ge file.length (pos + 4 * size) with hlt | hle
  · obtain ⟨hr, hg⟩ := take_of_lt (by omega) hlt fun _ => hpos
    refine .inl ⟨_, Reader.bind_of_error hr, ?_⟩
    split
    · rename_i length hlength
      split at hlength
      · cases hlength
        exact hg.bind_error
      · cases hlength
    · exact yields_unexpectedEnd (by omega)
  · obtain ⟨hr, hg⟩ := take_of_le hfile hle
    rw [wordLimit] at hfile
    rw [if_pos (by rw [sizeLimit]; omega)]
    exact .inr ⟨(), _, Reader.bind_of_ok hr, hg.bind_ok (yields_pure _), Nat.le_add_right _ _, hle⟩

/-- A length of annotations that is too great to be counted is too great for the file. -/
theorem follows_skipAnnotations (n : Nat) :
    Follows file (fun _ => 0) (skipAnnotations file n) (Bytecode.skipAnnotations n) := by
  rw [skipAnnotations, Bytecode.skipAnnotations]
  rcases Nat.lt_or_ge (n * annotationSize) sizeLimit with hlt | hge
  · rw [saturatingMul_of_lt hlt]
    exact follows_skipWords hfile _
  · intro pos hpos
    rw [wordLimit] at hfile
    rw [sizeLimit] at hge
    have hmany : file.length < pos + 4 * (n * annotationSize) := by omega
    obtain ⟨hr, -⟩ := take_of_lt (by rw [wordLimit]; omega) hmany fun _ => hpos
    refine .inl ⟨_, Reader.bind_of_error hr, ?_⟩
    have hsaturated : saturatingMul n annotationSize = sizeLimit - 1 := by
      rw [saturatingMul, sizeLimit]
      omega
    have hnone : checkedMul? (sizeLimit - 1) 4 = none := by decide
    rw [hsaturated, skipWords, hnone]
    exact yields_unexpectedEnd (by rw [wordLimit]; omega)

/-! ### Names -/

theorem follows_readText : Follows file (fun _ => 0) (readText file) Bytecode.readText :=
  (follows_count hfile).bind fun _ _ => (follows_take hfile _).bind fun _ _ =>
    follows_pure (Nat.zero_sub _)

/-- Behind the end of the file there is no name. -/
theorem yields_nameAt (offset : UInt32) :
    Yields (nameAt file offset) (Bytecode.nameAt file offset) := by
  have hoffset : stringsStart + offset.toNat ≤ 2 * wordLimit := by
    have hlt : offset.toNat < wordLimit := offset.toNat_lt
    rw [wordLimit] at hlt
    rw [stringsStart, wordLimit]
    omega
  have hsum : saturatingAdd stringsStart offset.toNat = stringsStart + offset.toNat := by
    rw [wordLimit] at hoffset
    exact saturatingAdd_of_lt (by rw [sizeLimit]; omega)
  rw [nameAt, hsum, nameAt_eq]
  rcases Nat.lt_or_ge file.length (stringsStart + offset.toNat) with hlt | hle
  · obtain ⟨hr, hg⟩ := @take_of_lt file _ 4 hoffset (by omega) fun hsize => by cases hsize
    have hcount : Reader.count ⟨_, file.drop (stringsStart + offset.toNat)⟩ = .error _ :=
      Reader.bind_of_error (Reader.bind_of_error hr)
    rw [Bytecode.readText, Reader.bind_of_error hcount]
    exact hg.bind_error.bind_error.bind_error.bind_error
  · rcases follows_readText hfile _ hle with ⟨e, hr, hg⟩ | ⟨name, next, hr, hg, -, -⟩
    · rw [hr]
      exact hg.bind_error
    · rw [hr]
      exact hg.bind_ok (yields_pure _)

theorem follows_readName :
    Follows file (fun _ => 4) (readName file) (Bytecode.readName file) :=
  (follows_word hfile).bind fun offset _ =>
    follows_step (yields_nameAt hfile offset) fun _ => Nat.sub_self 4

/-! ### Records -/

theorem follows_skipParameter :
    Follows file (fun _ => 4) (skipParameter file) Bytecode.skipParameter :=
  (follows_skipWords hfile 3).bind fun _ _ => (follows_count hfile).bind fun n _ =>
    follows_skipAnnotations hfile n

theorem follows_readState : Follows file (fun _ => 4) (readState file) Bytecode.readState :=
  (follows_word hfile).bind fun _ _ => (follows_skipWords hfile 3).bind fun _ _ =>
    follows_pure rfl

end

/-- The least number of bytes that a pass takes. -/
def passCost (p : Pass) : Nat := 4 * p.states.length + 4

/-- The least number of bytes that a technique takes. -/
def techniqueCost (t : Technique) : Nat := (t.passes.map passCost).sum + 4

section

variable {file : List UInt8} (hfile : file.length < wordLimit)

include hfile

theorem follows_readPass : Follows file passCost (readPass file) (Bytecode.readPass file) := by
  refine (follows_readName hfile).bind fun name _ => ?_
  refine (follows_count hfile).bind fun annotations _ => ?_
  refine (follows_count hfile).bind fun states _ => ?_
  refine (follows_skipAnnotations hfile annotations).bind fun _ _ => ?_
  refine (follows_times (follows_readState hfile) (fun _ => Nat.le_refl 4) states).bind
    fun l _ => follows_pure ?_
  simp only [passCost, List.map_const', List.sum_replicate_nat]
  omega

theorem follows_readTechnique :
    Follows file techniqueCost (readTechnique file) (Bytecode.readTechnique file) := by
  refine (follows_readName hfile).bind fun name _ => ?_
  refine (follows_count hfile).bind fun annotations _ => ?_
  refine (follows_count hfile).bind fun passes _ => ?_
  refine (follows_skipAnnotations hfile annotations).bind fun _ _ => ?_
  refine (follows_times (follows_readPass hfile) (fun p => Nat.le_add_left 4 _) passes).bind
    fun l _ => follows_pure ?_
  simp only [techniqueCost]
  omega

theorem follows_readTexture :
    Follows file (fun _ => 4) (readTexture file) Bytecode.readTexture := by
  refine (follows_word hfile).bind fun parameter _ => ?_
  refine (follows_count hfile).bind fun size _ => ?_
  refine (follows_take hfile size).bind fun name _ => ?_
  have hodd : size % 4 ≤ 4 := Nat.le_of_lt (Nat.mod_lt size (by decide))
  refine Follows.step_bind (yields_subtract hodd) ?_
  exact (follows_take hfile _).bind fun _ _ => follows_pure (by omega)

theorem follows_readEffectShader (profile : String) :
    Follows file (fun _ => 4) (readEffectShader profile file)
      (Bytecode.readEffectShader profile) := by
  refine (follows_word hfile).bind fun technique _ => ?_
  refine (follows_word hfile).bind fun pass _ => ?_
  refine (follows_skipWords hfile 3).bind fun _ _ => ?_
  refine (follows_count hfile).bind fun size _ => ?_
  refine (follows_take hfile size).bind fun code hcode => ?_
  refine Follows.step_bind (yields_readShader profile (Nat.lt_of_le_of_lt hcode hfile)) ?_
  exact follows_pure (by omega)

/-! ### The whole file -/

omit hfile in
theorem yields_countShaders {states : List UInt32} {before : Nat}
    (h : before + states.length < sizeLimit) :
    Yields (countShaders states before : Guarded ε Nat)
      (.ok (before + states.countP isShaderState)) := by
  induction states generalizing before with
  | nil => exact yields_pure before
  | cons type states ih =>
    rw [List.length_cons] at h
    rw [countShaders, List.countP_cons]
    split
    · have hrest := @ih (before + 1) (by omega)
      rw [Nat.add_right_comm, Nat.add_assoc] at hrest
      exact (yields_fitting (by omega)).bind_ok hrest
    · exact ih (by omega)

omit hfile in
/-- Every state is paid for. -/
theorem length_states_le (techniques : List Technique) :
    ((techniques.flatMap (·.passes)).flatMap (·.states)).length ≤
      (techniques.map techniqueCost).sum := by
  have hpasses (passes : List Pass) :
      (passes.flatMap (·.states)).length ≤ (passes.map passCost).sum := by
    induction passes with
    | nil => exact Nat.le_refl 0
    | cons p passes ih =>
      rw [List.flatMap_cons, List.length_append, List.map_cons, List.sum_cons, passCost]
      omega
  induction techniques with
  | nil => exact Nat.le_refl 0
  | cons t techniques ih =>
    have ht := hpasses t.passes
    rw [List.flatMap_cons, List.flatMap_append, List.length_append, List.map_cons, List.sum_cons,
      techniqueCost]
    omega

theorem follows_readParts (profile : String) :
    Follows file (fun _ => 0) (readParts profile file) (Bytecode.readParts profile file) := by
  refine (follows_count hfile).bind fun parameters _ => ?_
  refine (follows_count hfile).bind fun techniqueCount _ => ?_
  refine (follows_skipWords hfile 2).bind fun _ _ => ?_
  refine (follows_times (follows_skipParameter hfile) (fun _ => Nat.le_refl 4) parameters).bind
    fun _ _ => ?_
  refine (follows_times (follows_readTechnique hfile) (fun t => Nat.le_add_left 4 _)
    techniqueCount).bind fun techniques htechniques => ?_
  refine (follows_count hfile).bind fun textureCount _ => ?_
  refine (follows_count hfile).bind fun _ _ => ?_
  refine (follows_times (follows_readTexture hfile) (fun _ => Nat.le_refl 4) textureCount).bind
    fun textures _ => ?_
  have hstates := length_states_le techniques
  rw [wordLimit] at hfile
  have hcount : Yields (countShaders ((techniques.flatMap (·.passes)).flatMap (·.states)) 0 :
      Guarded EffectError Nat) (.ok (0 + shaderStates techniques)) :=
    yields_countShaders (by rw [sizeLimit]; omega)
  rw [Nat.zero_add] at hcount
  refine Follows.step_bind hcount ?_
  refine (follows_times (follows_readEffectShader hfile profile) (fun _ => Nat.le_refl 4) _).bind
    fun shaders _ => follows_pure (by omega)

theorem follows_readBundle (profile : String) :
    Follows file (fun _ => 0) (readBundle profile file) (Bytecode.readBundle profile file) := by
  rw [Bytecode.readBundle, skipStrings, bind_assoc]
  refine (follows_count hfile).bind fun size _ => ?_
  rw [bind_assoc]
  refine (follows_take hfile size).bind fun _ _ => ?_
  rw [pure_bind]
  simpa only [Nat.zero_sub] using follows_readParts hfile profile

theorem yields_effectReflection (profile : String) :
    Yields (effectReflection profile file) (Bytecode.effectReflection profile file) := by
  rw [effectReflection, Bytecode.effectReflection]
  cases heffect : isEffect file with
  | false => exact yields_throw _
  | true =>
    have hmark : 4 ≤ file.length := (isEffect_iff.1 heffect).length_le
    change Yields (readBundle profile file 4 >>= fun found => pure found.1)
      (Bytecode.readBundle profile file ⟨4, file.drop 4⟩ >>= fun found => .ok found.1)
    rcases follows_readBundle hfile profile 4 hmark with ⟨e, hr, hg⟩ | ⟨effect, next, hr, hg, -, -⟩
    · rw [hr]
      exact hg.bind_error
    · rw [hr]
      exact hg.bind_ok (yields_pure _)

/-- **Effects are read without a trap**, and so are the shaders in them. -/
theorem yields_readEffect (profile : String) :
    Yields (readEffect profile file : Guarded ε EffectReflection)
      (.ok (Bytecode.readEffect profile file)) := by
  rw [readEffect, Bytecode.readEffect]
  split
  · refine (yields_effectReflection hfile profile).attempt.bind_ok ?_
    cases Bytecode.effectReflection profile file with
    | ok reflection => exact yields_pure _
    | error e => exact yields_pure _
  · exact yields_pure _

end

end Guarded

/-! ## Records -/

/-- From every position of a file, the reader of a record fails or gets on by four bytes or more. -/
structure GetsOn {α : Type} (file : List UInt8) (r : Reader α) : Prop where
  takes : ∀ pos a c, pos ≤ file.length → r ⟨pos, file.drop pos⟩ = .ok (a, c) →
    pos + 4 ≤ c.index ∧ c.index ≤ file.length ∧ c.rest = file.drop c.index
  /-- A loop fails if it is told of more records than there are four bytes for, and it makes no
  difference how many more. -/
  ends : ∀ pos n, pos ≤ file.length → file.length < pos + 4 * n →
    ∃ e, ∀ m, n ≤ m → Reader.times m r ⟨pos, file.drop pos⟩ = .error e

section

variable {α : Type} {file : List UInt8} {r : Reader α}

theorem getsOn_of_takes
    (htakes : ∀ pos a c, pos ≤ file.length → r ⟨pos, file.drop pos⟩ = .ok (a, c) →
      pos + 4 ≤ c.index ∧ c.index ≤ file.length ∧ c.rest = file.drop c.index) : GetsOn file r := by
  refine ⟨htakes, fun pos n hpos hn => ?_⟩
  induction n generalizing pos with
  | zero => omega
  | succ n ih =>
    -- The loop has a first round, since it has more than `n`.
    have htimes {m : Nat} (hm : n + 1 ≤ m) : Reader.times m r =
        r >>= fun a => Reader.times (m - 1) r >>= fun l => pure (a :: l) := by
      obtain ⟨m, rfl⟩ := Nat.exists_eq_add_of_le' (Nat.le_trans (Nat.le_add_left 1 n) hm)
      rfl
    cases hr : r ⟨pos, file.drop pos⟩ with
    | error e =>
      refine ⟨e, fun m hm => ?_⟩
      rw [htimes hm]
      exact Reader.bind_of_error hr
    | ok read =>
      obtain ⟨a, next, rest⟩ := read
      obtain ⟨hnext, hinside, hrest⟩ := htakes pos a _ hpos hr
      dsimp only at hnext hinside hrest
      subst hrest
      obtain ⟨e, hfails⟩ := ih next hinside (by omega)
      refine ⟨e, fun m hm => ?_⟩
      rw [htimes hm]
      exact (Reader.bind_of_ok hr).trans (Reader.bind_of_error (hfails (m - 1) (by omega)))

theorem Guarded.Follows.getsOn {cost : α → Nat} {g : Guarded.Reading α}
    (h : Guarded.Follows file cost g r) (hcost : ∀ a, 4 ≤ cost a) : GetsOn file r := by
  refine getsOn_of_takes fun pos a c hpos hr => ?_
  rcases h pos hpos with ⟨e, hr', -⟩ | ⟨b, next, hr', -, hnext, hinside⟩
  · rw [hr'] at hr
    cases hr
  · rw [hr'] at hr
    cases hr
    exact ⟨Nat.le_trans (Nat.add_le_add_left (hcost a) pos) hnext, hinside, rfl⟩

end

/-- **No bytes trap a reader.**  Under guard, shaders and effects are read as what they are read as
without guard; and each record of an effect takes four bytes at least, or ends the reading, however
many of them there are said to be. -/
theorem readers_guarded (profile : String) (bytes : List UInt8)
    (hlimit : bytes.length < 0x100000000) :
    Guarded.Yields (Guarded.readShader profile bytes : Guarded Empty ShaderReflection)
        (.ok (readShader profile bytes)) ∧
      Guarded.Yields (Guarded.readEffect profile bytes : Guarded Empty EffectReflection)
        (.ok (readEffect profile bytes)) ∧
      GetsOn bytes skipParameter ∧ GetsOn bytes (readTechnique bytes) ∧
      GetsOn bytes (readPass bytes) ∧ GetsOn bytes readState ∧ GetsOn bytes readTexture ∧
      GetsOn bytes (readEffectShader profile) :=
  ⟨Guarded.yields_readShader profile hlimit,
   Guarded.yields_readEffect hlimit profile,
   (Guarded.follows_skipParameter hlimit).getsOn fun _ => Nat.le_refl 4,
   (Guarded.follows_readTechnique hlimit).getsOn fun _ => Nat.le_add_left 4 _,
   (Guarded.follows_readPass hlimit).getsOn fun _ => Nat.le_add_left 4 _,
   (Guarded.follows_readState hlimit).getsOn fun _ => Nat.le_refl 4,
   (Guarded.follows_readTexture hlimit).getsOn fun _ => Nat.le_refl 4,
   (Guarded.follows_readEffectShader hlimit profile).getsOn fun _ => Nat.le_refl 4⟩

/-- An effect that tells of as many techniques as a word can tell, and has none. -/
def boastingEffect : List UInt8 :=
  effectMark ++ bytesOfWords [0, 0, 0xFFFFFFFF, 0, 0]

theorem readers_guarded_boastingEffect :
    boastingEffect.length < 0x100000000 ∧
      readEffect "glsl" boastingEffect = .failed "glsl" [⟨none, 25, "Unexpected EOF"⟩] ∧
      Guarded.Yields (Guarded.readShader "glsl" boastingEffect : Guarded Empty ShaderReflection)
        (.ok (readShader "glsl" boastingEffect)) ∧
      Guarded.Yields (Guarded.readEffect "glsl" boastingEffect : Guarded Empty EffectReflection)
        (.ok (readEffect "glsl" boastingEffect)) ∧
      GetsOn boastingEffect skipParameter ∧ GetsOn boastingEffect (readTechnique boastingEffect) ∧
      GetsOn boastingEffect (readPass boastingEffect) ∧ GetsOn boastingEffect readState ∧
      GetsOn boastingEffect readTexture ∧ GetsOn boastingEffect (readEffectShader "glsl") := by
  have hlimit : boastingEffect.length < 0x100000000 := by decide
  exact ⟨hlimit, by decide +kernel, readers_guarded "glsl" boastingEffect hlimit⟩

end Bytecode
end ShaderKit
