import ShaderKit.Proofs.GuardedTable
import ShaderKit.Proofs.GuardedUniforms

/-!
# Shaders under guard

A guarded reader of shaders (`Guarded.readShader`).  It cuts the bytes into words and walks over
them: it stands at a position, takes the words of an item by their positions, and goes on behind
them.  A constant table is a part of the bytes, and so its place is computed in words first, and in
bytes then.  The walk may have as many rounds as there are words, and each of them must get on.

It is never trapped (`yields_readShader`).  The walk never stands behind the last word, and it has
counted no more instructions than it has left words behind it (`yields_scan`).
-/

set_option autoImplicit false

namespace ShaderKit
namespace Bytecode
namespace Guarded

variable {ε α : Type}

/-! ## Words -/

/-- An error at a position, which is told counting from one. -/
def located (index : Nat) (error : ShaderError) : Guarded LocatedError α := do
  let _ ← addSize index 1
  throw ⟨index, error⟩

theorem yields_located {index : Nat} {error : ShaderError} (h : index < wordLimit) :
    Yields (located index error : Guarded LocatedError α) (.error ⟨index, error⟩) := by
  rw [wordLimit] at h
  exact (yields_fitting (by rw [sizeLimit]; omega)).bind_ok (yields_throw _)

/-- Bytes in fours; what is left over at the end is left out. -/
def quads : List UInt8 → List (List UInt8)
  | a :: b :: c :: d :: bytes => [a, b, c, d] :: quads bytes
  | _ => []

/-- The words of a shader. -/
def shaderWords (bytes : List UInt8) : Guarded LocatedError (List UInt32) :=
  if bytes.isEmpty then located 0 .empty
  else if bytes.length % 4 ≠ 0 then located (bytes.length / 4) (.misaligned bytes.length)
  else (quads bytes).mapM wordOf

theorem quads_bytesOfWords (ws : List UInt32) : quads (bytesOfWords ws) = ws.map bytesOfWord := by
  induction ws with
  | nil => rfl
  | cons w ws ih => exact congrArg (bytesOfWord w :: ·) ih

theorem words?_eq_none_iff {bytes : List UInt8} : words? bytes = none ↔ bytes.length % 4 ≠ 0 := by
  fun_induction words? bytes with
  | case1 => simp
  | case2 a b c d bytes ih =>
    rw [Option.map_eq_none_iff, ih]
    simp only [List.length_cons]
    omega
  | case3 bytes hnil hcons =>
    refine iff_of_true rfl ?_
    match bytes with
    | [] => exact absurd rfl hnil
    | [_] | [_, _] | [_, _, _] => simp
    | a :: b :: c :: d :: bytes => exact absurd rfl (hcons a b c d bytes)

/-- The first word comes with the others. -/
theorem yields_shaderWords {bytes : List UInt8} (hlimit : bytes.length < wordLimit) :
    Yields (shaderWords bytes)
      ((fun (token, words) => token :: words) <$> Bytecode.shaderWords bytes) := by
  rw [shaderWords, Bytecode.shaderWords]
  cases hempty : bytes.isEmpty with
  | true => exact yields_located (by decide)
  | false =>
    rw [if_neg Bool.false_ne_true, if_neg Bool.false_ne_true]
    cases hwords : words? bytes with
    | none =>
      rw [if_pos (words?_eq_none_iff.1 hwords)]
      exact yields_located (Nat.lt_of_le_of_lt (Nat.div_le_self _ _) hlimit)
    | some ws =>
      have haligned : ¬ bytes.length % 4 ≠ 0 := by
        rw [← words?_eq_none_iff, hwords]
        exact Option.some_ne_none ws
      obtain rfl := words?_eq_some_iff.1 hwords
      rw [if_neg haligned, quads_bytesOfWords]
      have hquads : Yields ((ws.map bytesOfWord).mapM wordOf : Guarded LocatedError _)
          (.ok ((ws.map bytesOfWord).map (wordAt · 0))) :=
        yields_mapM <| List.forall_mem_map.2 fun w _ => yields_wordOf rfl
      rw [List.map_map] at hquads
      cases ws with
      | nil => cases hempty
      | cons token words =>
        have hsame : (token :: words).map ((wordAt · 0) ∘ bytesOfWord) = token :: words :=
          List.map_id'' (fun w => wordOfBytes_bytesOfWord w) _
        rw [hsame] at hquads
        exact hquads

/-- The version that a first word tells. -/
def version (token : UInt32) : Guarded LocatedError Version :=
  match Bytecode.version token with
  | .ok v => return v
  | .error e => located 0 e.error

theorem index_of_version {token : UInt32} {e : LocatedError}
    (h : Bytecode.version token = .error e) : e.index = 0 := by
  have hmodel (kind : ShaderKind) (major minor : Nat)
      (hmodel : (if supportedModels.contains (major, minor) then .ok ⟨kind, major, minor⟩
        else .error ⟨0, .unsupportedModel major minor⟩ : Except LocatedError Version) = .error e) :
      e.index = 0 := by
    split at hmodel
    · cases hmodel
    · cases hmodel
      rfl
  rw [Bytecode.version] at h
  split at h
  · exact hmodel _ _ _ h
  · exact hmodel _ _ _ h
  · cases h
    rfl

theorem yields_version (token : UInt32) : Yields (version token) (Bytecode.version token) := by
  rw [version]
  cases hversion : Bytecode.version token with
  | ok v => exact yields_pure v
  | error e =>
    have hfirst : e = ⟨0, e.error⟩ := by rw [← index_of_version hversion]
    rw [hfirst]
    exact yields_located (by decide)

/-! ## Items -/

/-- The words that belong to the item at a position. -/
def payloadAt (words : List UInt32) (pos size : Nat) : Guarded LocatedError (List UInt32) := do
  let start ← addSize pos 1
  let stop ← addSize start size
  match slice? words start stop with
  | some payload => return payload
  | none => located words.length .unexpectedEnd

/-- What a comment at a position says.  A table is read from the bytes. -/
def comment (bytes : List UInt8) (pos : Nat) (payload : List UInt32) :
    Guarded LocatedError Statement :=
  if payload.head? = some tableMark then do
    let start ← mulSize (← addSize pos 2) 4
    let stop ← mulSize (← addSize (← addSize pos 1) payload.length) 4
    match ← attempt (parseTable (← slice bytes start stop)) with
    | .ok t => return .table t
    | .error e => located pos (.table e)
  else return .nothing

/-- What a declaration at a position says. -/
def declaration (v : Version) (pos : Nat) (operands : List UInt32) :
    Guarded LocatedError Statement :=
  match Bytecode.declaration v operands with
  | .ok st => return st
  | .error e => do located (← addSize pos e.offset) e.error

/-- What a definition says. -/
def definition (code : UInt32) (operands : List UInt32) : Guarded ε Statement :=
  match operands with
  | [] => return .nothing
  | destination :: words => do
    match ← constant? (Register.ofWord destination) with
    | some register => return .constant ⟨register.number, definedValue code words⟩
    | none => return .nothing

/-- What the item at a position says. -/
def statement (v : Version) (bytes : List UInt8) (pos : Nat) (i : Item) :
    Guarded LocatedError Statement :=
  let code := opcode i.token
  if code = commentOpcode then comment bytes pos i.payload
  else if code = declareOpcode then declaration v pos i.payload
  else if code = defineFloatOpcode || code = defineIntOpcode || code = defineBoolOpcode then
    definition code i.payload
  else do return .instruction ((← i.payload.mapM reference?).filterMap id)

/-- The error of an item at a position. -/
def errorAt (pos : Nat) (e : ItemError) : LocatedError := ⟨pos + e.offset, e.error⟩

theorem offset_le_of_declaration {v : Version} {operands : List UInt32} {e : ItemError}
    (h : Bytecode.declaration v operands = .error e) : e.offset ≤ 1 := by
  rcases operands with _ | ⟨declared, _ | ⟨destination, rest⟩⟩
  · cases h
    exact Nat.zero_le 1
  · cases h
    exact Nat.zero_le 1
  · simp only [Bytecode.declaration] at h
    split at h
    · -- an input, whose usage may be unknown
      split at h
      · cases h
      · split at h
        · cases h
        · cases h
          exact Nat.le_refl 1
    · split at h
      · cases h
      · split at h
        · -- a sampler, whose type may be unsupported
          split at h
          · cases h
          · cases h
            exact Nat.le_refl 1
        · cases h

theorem yields_declaration (v : Version) {pos : Nat} (hpos : pos < wordLimit - 1)
    (operands : List UInt32) :
    Yields (declaration v pos operands)
      ((Bytecode.declaration v operands).mapError (errorAt pos)) := by
  rw [declaration]
  rw [wordLimit] at hpos
  cases hdeclaration : Bytecode.declaration v operands with
  | ok st => exact yields_pure st
  | error e =>
    have hoffset := offset_le_of_declaration hdeclaration
    refine (yields_fitting (by rw [sizeLimit]; omega)).bind_ok ?_
    exact yields_located (by rw [wordLimit]; omega)

theorem yields_definition (code : UInt32) (operands : List UInt32) :
    Yields (definition code operands : Guarded ε Statement)
      (.ok (definitionStatement code operands)) := by
  cases operands with
  | nil => exact yields_pure _
  | cons destination words =>
    refine (yields_constant? (Register.number_ofWord_lt destination)).bind_ok ?_
    rw [definitionStatement]
    cases (Register.ofWord destination).constant? with
    | none => exact yields_pure _
    | some register => exact yields_pure _

section

variable {words payload : List UInt32} {pos size : Nat}

/-- The payload of the item at a position lies inside of the words, and what is behind it begins at
the next position. -/
theorem drop_of_splitOff? {rest : List UInt32} (hpos : pos < words.length)
    (h : splitOff? size (words.drop (pos + 1)) = some (payload, rest)) :
    pos + (1 + size) ≤ words.length ∧ words.drop (pos + (1 + size)) = rest := by
  obtain ⟨hdrop, rfl⟩ := splitOff?_eq_some_iff.1 h
  constructor
  · have hall := congrArg List.length hdrop
    simp only [List.length_drop, List.length_append] at hall
    omega
  · rw [← Nat.add_assoc, ← List.drop_drop, hdrop, List.drop_left]

/-- The payload of the item at a position. -/
theorem yields_payloadAt (hwords : words.length < wordLimit) (hpos : pos < words.length)
    (hsize : size < wordLimit) :
    Yields (payloadAt words pos size)
      (match splitOff? size (words.drop (pos + 1)) with
      | some (payload, _) => .ok payload
      | none => .error ⟨words.length, .unexpectedEnd⟩) := by
  rw [wordLimit] at hwords hsize
  refine (yields_fitting (by rw [sizeLimit]; omega)).bind_ok ?_
  refine (yields_fitting (by rw [sizeLimit]; omega)).bind_ok ?_
  cases hsplit : splitOff? size (words.drop (pos + 1)) with
  | none =>
    have hshort : ¬ pos + 1 + size ≤ words.length := by
      intro hle
      have hsome : splitOff? size (words.drop (pos + 1)) = some _ :=
        splitOff?_eq_some_iff.2 ⟨(List.take_append_drop size _).symm, by simp; omega⟩
      rw [hsplit] at hsome
      cases hsome
    rw [slice?, if_neg fun hboth => hshort hboth.2]
    exact yields_located hwords
  | some split =>
    obtain ⟨payload, rest⟩ := split
    obtain ⟨hdrop, hlength⟩ := splitOff?_eq_some_iff.1 hsplit
    have hle : pos + 1 + size ≤ words.length := by
      rw [Nat.add_assoc]
      exact (drop_of_splitOff? hpos hsplit).1
    rw [slice?_of_le (Nat.le_add_right _ _) hle, List.drop_take, Nat.add_sub_cancel_left, hdrop,
      List.take_left' hlength]
    exact yields_pure payload

/-- The table of a comment has its place in the bytes. -/
theorem slice_table {mark : UInt32} {table rest : List UInt32}
    (hpayload : words.drop (pos + 1) = mark :: table ++ rest) :
    ((bytesOfWords words).take ((pos + 1 + (table.length + 1)) * 4)).drop ((pos + 2) * 4) =
      bytesOfWords table := by
  have htail : words.drop (pos + 2) = table ++ rest := by
    rw [← List.drop_drop (i := 1) (j := pos + 1) (l := words), hpayload]
    rfl
  have hcount : pos + 1 + (table.length + 1) - (pos + 2) = table.length := by omega
  rw [Nat.mul_comm (pos + 1 + _), take_bytesOfWords, Nat.mul_comm (pos + 2), drop_bytesOfWords,
    List.drop_take, htail, hcount, List.take_left]

theorem yields_comment (hlimit : (bytesOfWords words).length < wordLimit) {rest : List UInt32}
    (hpayload : words.drop (pos + 1) = payload ++ rest) (hpos : pos < words.length) :
    Yields (comment (bytesOfWords words) pos payload)
      ((commentStatement payload).mapError (errorAt pos)) := by
  have hwords := length_bytesOfWords words
  rw [wordLimit] at hlimit
  rw [comment]
  cases payload with
  | nil => exact yields_pure _
  | cons mark table =>
    rw [commentStatement, List.head?_cons]
    by_cases hmark : mark = tableMark
    · have hlength : pos + 1 + (table.length + 1) ≤ words.length := by
        have hall := congrArg List.length hpayload
        simp only [List.length_drop, List.cons_append, List.length_cons, List.length_append] at hall
        omega
      rw [if_pos (congrArg some hmark), if_pos hmark]
      refine (yields_fitting (by rw [sizeLimit]; omega)).bind_ok ?_
      refine (yields_fitting (by rw [sizeLimit]; omega)).bind_ok ?_
      refine (yields_fitting (by rw [sizeLimit]; omega)).bind_ok ?_
      refine (yields_fitting (by rw [sizeLimit, List.length_cons]; omega)).bind_ok ?_
      refine (yields_fitting (by rw [sizeLimit, List.length_cons]; omega)).bind_ok ?_
      refine (yields_slice (by rw [List.length_cons]; omega)
        (by rw [List.length_cons]; omega)).bind_ok ?_
      rw [List.length_cons, slice_table hpayload]
      have htable : (bytesOfWords table).length < sizeLimit := by
        rw [length_bytesOfWords, sizeLimit]
        omega
      refine (yields_parseTable htable).attempt.bind_ok ?_
      cases ConstantTable.parse (bytesOfWords table) with
      | ok t => exact yields_pure _
      | error e => exact yields_located (by rw [wordLimit]; omega)
    · rw [if_neg (fun h => hmark (Option.some.inj h)), if_neg hmark]
      exact yields_pure _

/-- What an item says. -/
theorem yields_statement (v : Version) (hlimit : (bytesOfWords words).length < wordLimit)
    {i : Item} {rest : List UInt32} (hpayload : words.drop (pos + 1) = i.payload ++ rest)
    (hpos : pos < words.length) :
    Yields (statement v (bytesOfWords words) pos i)
      ((i.statement v).mapError (errorAt pos)) := by
  have hbytes := length_bytesOfWords words
  rw [statement, Item.statement]
  split
  · exact yields_comment hlimit hpayload hpos
  · split
    · exact yields_declaration v (by omega) _
    · split
      · exact yields_definition _ _
      · refine (yields_mapM fun operand _ => yields_reference? operand).bind_ok ?_
        rw [List.filterMap_map]
        exact yields_pure _

end

/-! ## The walk -/

/-- Counts a statement, if it is an instruction. -/
def counted (count : Nat) (st : Statement) : Guarded ε Nat :=
  if st.isInstruction then addWord count 1 else return count

/-- What the items from a position on say, and how many instructions there are, `count` of them
before. -/
def scan (v : Version) (bytes : List UInt8) (words : List UInt32) :
    (rounds pos count : Nat) → Guarded LocatedError (List Statement × Nat)
  | 0, _, _ => trap .stalled
  | rounds + 1, pos, count =>
    match words[pos]? with
    | none => located pos .missingEnd
    | some token =>
      if token = endWord then return ([], count)
      else do
        let payload ← payloadAt words pos (payloadSize token)
        let st ← statement v bytes pos ⟨token, payload⟩
        let count ← counted count st
        let next ← addSize pos (← addSize 1 (payloadSize token))
        if next ≤ pos then trap .stalled
        else
          let (rest, count) ← scan v bytes words rounds next count
          return (st :: rest, count)

theorem yields_counted {count : Nat} (h : count < wordLimit - 1) (st : Statement) :
    Yields (counted count st : Guarded ε Nat)
      (.ok (count + if st.isInstruction then 1 else 0)) := by
  rw [counted]
  split
  · exact yields_fitting (by omega)
  · exact yields_pure count

/-- What is to come of a walk from a position on: what the items among the `rest` of the words say,
and how many instructions there are then. -/
def walked (v : Version) (size pos count : Nat) (rest : List UInt32) :
    Except LocatedError (List Statement × Nat) := do
  let ss ← statements v pos (splitItems rest).1
  checkEnding size (splitItems rest).2
  return (ss, count + ss.countP (·.isInstruction))

section

variable (v : Version) (size pos count : Nat)

theorem walked_nil : walked v size pos count [] = .error ⟨size, .missingEnd⟩ := by
  rw [walked, splitItems]
  rfl

theorem walked_endWord (words : List UInt32) :
    walked v size pos count (endWord :: words) = .ok ([], count) := by
  rw [walked, splitItems, if_pos rfl]
  rfl

variable {token : UInt32} {words payload rest : List UInt32}

theorem walked_of_none (hend : token ≠ endWord)
    (hsplit : splitOff? (payloadSize token) words = none) :
    walked v size pos count (token :: words) = .error ⟨size, .unexpectedEnd⟩ := by
  have hitems : splitItems (token :: words) = ([], .cutShort token words) := by
    rw [splitItems, if_neg hend]
    split
    · rfl
    · rename_i hsome
      rw [hsplit] at hsome
      cases hsome
  rw [walked, hitems]
  rfl

/-- The first item is read and counted before the others. -/
theorem walked_of_some (hend : token ≠ endWord)
    (hsplit : splitOff? (payloadSize token) words = some (payload, rest)) :
    walked v size pos count (token :: words) =
      ((Item.statement v ⟨token, payload⟩).mapError (errorAt pos) >>= fun st =>
        walked v size (pos + (1 + payloadSize token))
            (count + if st.isInstruction then 1 else 0) rest >>= fun (ss, total) =>
          .ok (st :: ss, total)) := by
  have hitems : splitItems (token :: words) =
      (⟨token, payload⟩ :: (splitItems rest).1, (splitItems rest).2) := by
    rw [splitItems, if_neg hend]
    split
    · rename_i hnone
      rw [hsplit] at hnone
      cases hnone
    · rename_i hsome
      rw [hsplit] at hsome
      cases hsome
      rfl
  have hsize : Item.size ⟨token, payload⟩ = 1 + payloadSize token := by
    rw [Item.size, (splitOff?_eq_some_iff.1 hsplit).2, Nat.add_comm]
  rw [walked, hitems, statements]
  cases Item.statement v ⟨token, payload⟩ with
  | error e => rfl
  | ok st =>
    rw [hsize]
    change (statements v _ _ >>= _ >>= _) = (walked v size _ _ rest >>= _)
    rw [walked]
    cases statements v (pos + (1 + payloadSize token)) (splitItems rest).1 with
    | error e => rfl
    | ok ss =>
      cases checkEnding size (splitItems rest).2 with
      | error e => rfl
      | ok _ =>
        have hcount : (st :: ss).countP (·.isInstruction) =
            (if st.isInstruction then 1 else 0) + ss.countP (·.isInstruction) := by
          rw [List.countP_cons, Nat.add_comm]
        change Except.ok (_, count + List.countP _ (st :: ss)) = Except.ok (_, _)
        rw [hcount, Nat.add_assoc]

end

theorem payloadSize_lt (token : UInt32) : payloadSize token < wordLimit := by
  rw [payloadSize]
  split
  · exact UInt32.toNat_lt _
  · exact UInt32.toNat_lt _

/-- **The walk comes to what the items say**, and is not trapped on the way. -/
theorem yields_scan (v : Version) {words : List UInt32}
    (hlimit : (bytesOfWords words).length < wordLimit) {rounds pos count : Nat}
    (hpos : pos ≤ words.length) (hrounds : words.length < pos + rounds) (hcount : count ≤ pos) :
    Yields (scan v (bytesOfWords words) words rounds pos count)
      (walked v words.length pos count (words.drop pos)) := by
  have hbytes := length_bytesOfWords words
  have hwords : words.length < wordLimit := by omega
  induction rounds generalizing pos count with
  | zero => omega
  | succ rounds ih =>
    rw [scan]
    rcases Nat.eq_or_lt_of_le hpos with rfl | hlt
    · rw [List.getElem?_eq_none (Nat.le_refl _), List.drop_length, walked_nil]
      exact yields_located hwords
    rw [List.getElem?_eq_getElem hlt, List.drop_eq_getElem_cons hlt]
    dsimp only
    by_cases hend : words[pos] = endWord
    · rw [if_pos hend, hend, walked_endWord]
      exact yields_pure _
    rw [if_neg hend]
    have hpayload := yields_payloadAt hwords hlt (payloadSize_lt words[pos])
    cases hsplit : splitOff? (payloadSize words[pos]) (words.drop (pos + 1)) with
    | none =>
      rw [hsplit] at hpayload
      rw [walked_of_none v _ _ _ hend hsplit]
      exact hpayload.bind_error
    | some split =>
      obtain ⟨payload, rest⟩ := split
      obtain ⟨hinside, hnext⟩ := drop_of_splitOff? hlt hsplit
      rw [hsplit] at hpayload
      rw [walked_of_some v _ _ _ hend hsplit]
      refine hpayload.bind_ok ?_
      refine (yields_statement v hlimit (splitOff?_eq_some_iff.1 hsplit).1 hlt).bind fun st _ => ?_
      refine (yields_counted (by omega) st).bind_ok ?_
      rw [wordLimit] at hwords
      refine (yields_fitting (by rw [sizeLimit]; omega)).bind_ok ?_
      refine (yields_fitting (by rw [sizeLimit]; omega)).bind_ok ?_
      have hcount' : (count + if st.isInstruction then 1 else 0) ≤
          pos + (1 + payloadSize words[pos]) := by
        split <;> omega
      rw [if_neg (by omega), ← hnext]
      exact (ih hinside (by omega) hcount').bind fun _ _ => yields_pure _

/-! ## Shaders -/

/-- The version of a shader, what its items say, and how many of them are instructions. -/
def shaderStatements (bytes : List UInt8) :
    Guarded LocatedError (Version × List Statement × Nat) := do
  let words ← shaderWords bytes
  let v ← version (← item words 0)
  let (ss, count) ← scan v bytes words words.length 1 0
  return (v, ss, count)

/-- The samplers that are declared, with their names. -/
def samplers (ss : List Statement) : Guarded ε (List Sampler) :=
  (ss.filterMap (·.sampler?)).mapM fun (index, type) => do
    return { index, type, name := (← find? (lastTable? ss) .sampler index).map (·.name) }

/-- The reflection that statements amount to, `count` of which are instructions. -/
def reflect (profile : String) (v : Version) (ss : List Statement) (count : Nat) :
    Guarded ε ShaderReflection := do
  let constants := ss.filterMap (·.constant?)
  let uniforms ← uniforms (ss.flatMap (·.references)) constants (lastTable? ss)
  let samplers ← samplers ss
  return {
    profile
    kind := v.kind
    major := v.major
    minor := v.minor
    instructionCount := count
    attributes := ss.filterMap (·.attribute?)
    constants
    uniforms
    samplers }

/-- Reads a shader for a profile. -/
def readShader (profile : String) (bytes : List UInt8) : Guarded ε ShaderReflection :=
  if Profile.isSupported profile then do
    match ← attempt (shaderStatements bytes) with
    | .ok (v, ss, count) => reflect profile v ss count
    | .error e => return .failed profile [e.diagnostic]
  else return .failed profile [⟨none, 0, Profile.unsupportedMessage profile⟩]

theorem yields_shaderStatements {bytes : List UInt8} (hlimit : bytes.length < wordLimit) :
    Yields (shaderStatements bytes)
      (Bytecode.shaderStatements bytes >>= fun (v, ss) =>
        .ok (v, ss, ss.countP (·.isInstruction))) := by
  have hshaderWords := yields_shaderWords hlimit
  rw [Bytecode.shaderStatements]
  cases hwords : Bytecode.shaderWords bytes with
  | error e =>
    rw [hwords] at hshaderWords
    exact hshaderWords.bind_error
  | ok split =>
    obtain ⟨token, words⟩ := split
    rw [hwords] at hshaderWords
    obtain rfl := shaderWords_eq_ok_iff.1 hwords
    have hscan (v : Version) :
        Yields (scan v _ (token :: words) (token :: words).length 1 0) _ :=
      yields_scan v hlimit (by simp) (by simp) (Nat.zero_le 1)
    refine hshaderWords.bind_ok ((yields_item rfl).bind_ok ?_)
    change Yields _ (Bytecode.version token >>= _ >>= _)
    rw [bind_assoc]
    refine (yields_version token).bind fun v _ => ?_
    have hsame : (statements v 1 (splitItems words).1 >>= fun ss =>
          checkEnding (words.length + 1) (splitItems words).2 >>= fun _ => .ok (v, ss)) >>=
          (fun (v, ss) => .ok (v, ss, ss.countP (·.isInstruction))) =
        (walked v (words.length + 1) 1 0 words >>= fun (ss, count) => .ok (v, ss, count)) := by
      rw [walked]
      cases statements v 1 (splitItems words).1 with
      | error e => rfl
      | ok ss =>
        cases checkEnding (words.length + 1) (splitItems words).2 with
        | error e => rfl
        | ok _ => exact congrArg (fun n => Except.ok (v, ss, n)) (Nat.zero_add _).symm
    exact hsame ▸ (hscan v).bind fun _ _ => yields_pure _

theorem fits_of_mem_shaderStatements {bytes : List UInt8} {v : Version} {ss : List Statement}
    (h : Bytecode.shaderStatements bytes = .ok (v, ss)) : ∀ st ∈ ss, st.Fits := by
  obtain ⟨s, -, rfl, rfl⟩ := shaderStatements_eq_ok_iff.1 h
  exact List.forall_mem_map.2 fun i _ => i.fits_said s.version

section

variable {ss : List Statement}

theorem fits_lastTable? (hfits : ∀ st ∈ ss, st.Fits) :
    ∀ t ∈ lastTable? ss, ∀ e ∈ t.constants, e.Fits := by
  intro t ht
  obtain ⟨st, hst, htable⟩ := List.mem_filterMap.1 (List.mem_of_getLast? ht)
  exact (hfits st hst).table? t htable

theorem yields_samplers (hfits : ∀ st ∈ ss, st.Fits) :
    Yields (samplers ss : Guarded ε (List Sampler)) (.ok (Bytecode.samplers ss)) :=
  yields_mapM fun _ _ => (yields_find? (fits_lastTable? hfits)).bind_ok (yields_pure _)

theorem yields_reflect (profile : String) (v : Version) (hfits : ∀ st ∈ ss, st.Fits) :
    Yields (reflect profile v ss (ss.countP (·.isInstruction)) : Guarded ε ShaderReflection)
      (.ok (Bytecode.reflect profile v ss)) := by
  have hconstants : ∀ c ∈ ss.filterMap (·.constant?), c.index < registerLimit := by
    intro c hc
    obtain ⟨st, hst, hconstant⟩ := List.mem_filterMap.1 hc
    exact (hfits st hst).constant? c hconstant
  refine (yields_uniforms hconstants (fits_lastTable? hfits) _).bind_ok ?_
  exact (yields_samplers hfits).bind_ok (yields_pure _)

end

/-- **Shaders are read without a trap.** -/
theorem yields_readShader (profile : String) {bytes : List UInt8}
    (hlimit : bytes.length < wordLimit) :
    Yields (readShader profile bytes : Guarded ε ShaderReflection)
      (.ok (Bytecode.readShader profile bytes)) := by
  rw [readShader, Bytecode.readShader]
  split
  · refine (yields_shaderStatements hlimit).attempt.bind_ok ?_
    cases hstatements : Bytecode.shaderStatements bytes with
    | error e => exact yields_pure _
    | ok read => exact yields_reflect profile read.1 (fits_of_mem_shaderStatements hstatements)
  · exact yields_pure _

end Guarded
end Bytecode
end ShaderKit
