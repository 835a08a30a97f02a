import ShaderKit.Proofs.Success
import ShaderKit.Proofs.TokenStream

/-!
# Which shaders are read, and as what

The reader accepts exactly the bytes of a `TokenStream`, and reads from them what
`TokenStream.reflection` says.  It goes from bytes to words, from words to items and from items to
what they say, and each of these steps is inverted on its own: `words?_eq_some_iff`,
`splitItems_eq_closed_iff`, `statement_eq_ok_iff` and `statements_eq_ok_iff`.

An item is read if it is valid (`Item.IsValid`), and then it says what `Item.said` puts together
from what it means: its attribute, its sampler, its constant, its table or its references.  That the
reader comes to the same is one lemma for each kind of item (`statement_comment_iff` and so on).
From there on the reflection is put together from what the items say, part by part
(`contributes_said`).
-/

set_option autoImplicit false

namespace ShaderKit
namespace Bytecode

/-! ## What an item says -/

namespace Item

/-- What an item in order says, put together from what it means. -/
def said (v : Version) (i : Item) : Statement :=
  match i.kind with
  | .comment => (i.table?.map Statement.table).getD .nothing
  | .declaration =>
    match i.attribute? v, i.sampler? with
    | some a, _ => .input a
    | none, some (register, type) => .sampler register type
    | none, none => .nothing
  | .definition _ => (i.constant?.map Statement.constant).getD .nothing
  | .instruction => .instruction i.references

/-- The operation code is the number in the low half of the first word. -/
theorem opcode_eq_iff (i : Item) {code : UInt32} {n : Nat} (hcode : code.toNat = n) :
    opcode i.token = code ↔ i.code = n := by
  have htoNat : (opcode i.token).toNat = i.code := toNat_and i.token rfl
  rw [← UInt32.toNat_inj, htoNat, hcode]

/-- The kind of an item decides how it is read. -/
theorem statement_eq (v : Version) (i : Item) :
    i.statement v =
      match i.kind with
      | .comment => commentStatement i.payload
      | .declaration => declaration v i.payload
      | .definition _ => .ok (definitionStatement (opcode i.token) i.payload)
      | .instruction => .ok (.instruction (i.payload.filterMap reference?)) := by
  have hcomment : opcode i.token = commentOpcode ↔ i.code = 0xFFFE := i.opcode_eq_iff rfl
  have hdeclare : opcode i.token = declareOpcode ↔ i.code = 0x1F := i.opcode_eq_iff rfl
  have hfloat : opcode i.token = defineFloatOpcode ↔ i.code = 0x51 := i.opcode_eq_iff rfl
  have hint : opcode i.token = defineIntOpcode ↔ i.code = 0x30 := i.opcode_eq_iff rfl
  have hbool : opcode i.token = defineBoolOpcode ↔ i.code = 0x2F := i.opcode_eq_iff rfl
  rw [statement, kind]
  simp only [hcomment, hdeclare, hfloat, hint, hbool, Bool.or_eq_true, decide_eq_true_eq]
  generalize i.code = n
  by_cases h : n = 0xFFFE ∨ n = 0x1F ∨ n = 0x51 ∨ n = 0x30 ∨ n = 0x2F
  · rcases h with rfl | rfl | rfl | rfl | rfl <;> rfl
  · simp only [not_or] at h
    obtain ⟨h1, h2, h3, h4, h5⟩ := h
    rw [if_neg h1, if_neg h2, if_neg (by omega)]
    split <;> simp_all

theorem reference?_eq (operand : UInt32) : reference? operand = Reference.ofBits? operand := by
  have hmask : (0x80000000 : UInt32).toNat = 2 ^ 31 := rfl
  have hset : ¬ operand &&& 0x80000000 = 0 ↔ bits operand 31 1 = 1 := by
    have hbit := bits_lt operand 31 1
    rw [and_eq_zero_iff operand hmask]
    omega
  rw [reference?, Reference.ofBits?, Register.ofWord_eq]
  by_cases h : operand &&& 0x80000000 = 0
  · rw [if_pos h, if_neg (fun h' => hset.2 h' h)]
  · rw [if_neg h, if_pos (hset.1 h)]

theorem statement_instruction {i : Item} (hkind : i.kind = .instruction) (v : Version) :
    i.statement v = .ok (i.said v) := by
  have hreference : reference? = Reference.ofBits? := funext reference?_eq
  simp only [statement_eq, said, hkind, references, if_true, hreference]

theorem statement_definition {i : Item} {type : ConstantType} (hkind : i.kind = .definition type)
    (v : Version) : i.statement v = .ok (i.said v) := by
  have hvalue (words : List UInt32) :
      definedValue (opcode i.token) words = ConstantValue.ofWords type words := by
    rw [kind] at hkind
    split at hkind <;> cases hkind
    · have hcode : opcode i.token = defineFloatOpcode := (i.opcode_eq_iff rfl).2 ‹_›
      rw [hcode]
      rfl
    · have hcode : opcode i.token = defineIntOpcode := (i.opcode_eq_iff rfl).2 ‹_›
      rw [hcode]
      rfl
    · have hcode : opcode i.token = defineBoolOpcode := (i.opcode_eq_iff rfl).2 ‹_›
      rw [hcode]
      rfl
  simp only [statement_eq, said, hkind, constant?]
  cases i.payload with
  | nil => rfl
  | cons destination words =>
    rw [definitionStatement, Register.ofWord_eq]
    cases hr : (Register.ofBits destination).constant? with
    | none => simp [hr]
    | some register => simp [hr, hvalue]

/-! ### Comments -/

theorem statement_comment_iff {i : Item} (hkind : i.kind = .comment) {v : Version}
    {st : Statement} : i.statement v = .ok st ↔ i.IsValid v ∧ st = i.said v := by
  have hvalid : i.IsValid v ↔ ∀ words, i.payload = tableMark :: words →
      ∃ t, ConstantTable.parse (bytesOfWords words) = .ok t := by
    refine ⟨fun h words => h.table words hkind, fun h => ?_⟩
    exact { table := fun words _ => h words, operands := by simp [hkind],
            usage := by simp [hkind], samplerType := by simp [hkind] }
  rw [hvalid]
  simp only [statement_eq, said, hkind, table?]
  cases i.payload with
  | nil => simp [commentStatement, eq_comm]
  | cons mark words =>
    by_cases hmark : mark = tableMark
    · cases hparse : ConstantTable.parse (bytesOfWords words) with
      | error e => simp [commentStatement, hmark, hparse]
      | ok t => simp [commentStatement, hmark, hparse, Except.toOption, eq_comm]
    · simp [commentStatement, hmark, eq_comm]

/-! ### Declarations -/

theorem usage_ofNumber?_eq_none_iff (n : Nat) : Usage.ofNumber? n = none ↔ 14 ≤ n := by
  rw [Usage.ofNumber?, List.getElem?_eq_none_iff]
  rfl

theorem samplerType?_eq_none_iff (n : Nat) : samplerType? n = none ↔ n ∉ [2, 3, 4] := by
  unfold samplerType?
  split <;> simp_all

/-- A declaration with the operands that it needs, its fields as numbers. -/
theorem declaration_cons (v : Version) (declared destination : UInt32) (rest : List UInt32) :
    declaration v (declared :: destination :: rest) =
      let r := Register.ofBits destination
      if r.file = 1 then
        if v.isLegacyPixel then .ok (.input { usage := .color, index := r.number })
        else
          match Usage.ofNumber? (bits declared 0 5) with
          | some usage => .ok (.input { usage, index := bits declared 16 4 })
          | none => .error ⟨1, .unknownUsage (bits declared 0 5)⟩
      else if r.file = 3 && v.isLegacyPixel then
        .ok (.input { usage := .texCoord, index := r.number })
      else if r.file = 10 then
        match samplerType? (bits declared 27 4) with
        | some type => .ok (.sampler r.number type)
        | none => .error ⟨1, .unsupportedSampler (bits declared 27 4)⟩
      else .ok .nothing := by
  have husage : (declared &&& 0x1F).toNat = bits declared 0 5 := toNat_and declared rfl
  have hindex : ((declared >>> 16) &&& 0xF).toNat = bits declared 16 4 :=
    toNat_shiftRight_and declared rfl (by decide) rfl
  have htype : ((declared >>> 27) &&& 0xF).toNat = bits declared 27 4 :=
    toNat_shiftRight_and declared rfl (by decide) rfl
  rw [declaration, Register.ofWord_eq, husage, hindex, htype]
  rfl

theorem isValid_declaration_iff {i : Item} (hkind : i.kind = .declaration) {v : Version}
    {declared destination : UInt32} {rest : List UInt32}
    (hpayload : i.payload = declared :: destination :: rest) :
    i.IsValid v ↔
      ((Register.ofBits destination).file = 1 → v.isLegacyPixel = false →
        bits declared 0 5 < 14) ∧
      ((Register.ofBits destination).file = 10 → bits declared 27 4 ∈ [2, 3, 4]) := by
  refine ⟨fun h => ⟨h.usage _ _ _ hkind hpayload, h.samplerType _ _ _ hkind hpayload⟩,
    fun h => ?_⟩
  exact { table := by simp [hkind], operands := by simp [hpayload],
          usage := by
            intro d r words _ hwords
            obtain ⟨rfl, rfl, rfl⟩ : declared = d ∧ destination = r ∧ rest = words := by
              simpa [hpayload] using hwords
            exact h.1
          samplerType := by
            intro d r words _ hwords
            obtain ⟨rfl, rfl, rfl⟩ : declared = d ∧ destination = r ∧ rest = words := by
              simpa [hpayload] using hwords
            exact h.2 }

theorem statement_declaration_iff {i : Item} (hkind : i.kind = .declaration) {v : Version}
    {st : Statement} : i.statement v = .ok st ↔ i.IsValid v ∧ st = i.said v := by
  match hpayload : i.payload with
  | [] | [_] =>
    have hinvalid : ¬ i.IsValid v := fun h => by simpa [hpayload] using h.operands hkind
    simp [statement_eq, hkind, hpayload, declaration, hinvalid]
  | declared :: destination :: rest =>
    rw [isValid_declaration_iff hkind hpayload]
    simp only [statement_eq, said, hkind, attribute?, sampler?, hpayload, declaration_cons]
    by_cases hsampler : (Register.ofBits destination).file = 10
    · cases htype : samplerType? (bits declared 27 4) with
      | none =>
        have hunknown := (samplerType?_eq_none_iff _).1 htype
        simp [hsampler, hunknown]
      | some type =>
        have hknown : bits declared 27 4 ∈ [2, 3, 4] := by
          by_contra h
          simp [(samplerType?_eq_none_iff _).2 h] at htype
        simp [hsampler, -List.mem_cons, hknown, eq_comm (a := st)]
    by_cases hinput : (Register.ofBits destination).file = 1
    · cases hold : v.isLegacyPixel with
      | true => simp [hinput, eq_comm]
      | false =>
        cases husage : Usage.ofNumber? (bits declared 0 5) with
        | none =>
          have hunknown := (usage_ofNumber?_eq_none_iff _).1 husage
          simp [hinput, show ¬ bits declared 0 5 < 14 by omega]
        | some usage =>
          have hknown : bits declared 0 5 < 14 := by
            by_contra h
            simp [(usage_ofNumber?_eq_none_iff _).2 (Nat.le_of_not_lt h)] at husage
          simp [hinput, hknown, eq_comm]
    · cases hold : v.isLegacyPixel with
      | true =>
        by_cases htexture : (Register.ofBits destination).file = 3
        · simp [htexture, eq_comm]
        · simp [hsampler, hinput, htexture, eq_comm]
      | false => simp [hsampler, hinput, eq_comm]

/-! ### All items -/

/-- **An item is read if and only if it is in order**, and then it says what it means. -/
theorem statement_eq_ok_iff {i : Item} {v : Version} {st : Statement} :
    i.statement v = .ok st ↔ i.IsValid v ∧ st = i.said v := by
  have hvalid (hcomment : i.kind ≠ .comment) (hdeclaration : i.kind ≠ .declaration) :
      i.IsValid v :=
    { table := by simp [hcomment], operands := by simp [hdeclaration],
      usage := by simp [hdeclaration], samplerType := by simp [hdeclaration] }
  cases hkind : i.kind with
  | comment => exact statement_comment_iff hkind
  | declaration => exact statement_declaration_iff hkind
  | definition type =>
    rw [statement_definition hkind, Except.ok.injEq, eq_comm, and_iff_right (hvalid _ _)]
    · simp [hkind]
    · simp [hkind]
  | instruction =>
    rw [statement_instruction hkind, Except.ok.injEq, eq_comm, and_iff_right (hvalid _ _)]
    · simp [hkind]
    · simp [hkind]

/-- An item is in order if reading it does not fail. -/
theorem isValid_iff_toBool (v : Version) (i : Item) :
    i.IsValid v ↔ (i.statement v).toBool = true := by
  constructor
  · intro h
    rw [statement_eq_ok_iff.2 ⟨h, rfl⟩]
    rfl
  · intro h
    cases hstatement : i.statement v with
    | ok st => exact (statement_eq_ok_iff.1 hstatement).1
    | error e =>
      rw [hstatement] at h
      cases h

instance (v : Version) (i : Item) : Decidable (i.IsValid v) :=
  decidable_of_iff _ (isValid_iff_toBool v i).symm

/-! ### Parts of what an item says -/

/-- A statement contributes to each part of a reflection what the item means there. -/
structure Contributes (v : Version) (i : Item) (st : Statement) : Prop where
  references : st.references = i.references
  attribute? : st.attribute? = i.attribute? v
  constant? : st.constant? = i.constant?
  sampler? : st.sampler? = i.sampler?
  table? : st.table? = i.table?
  isInstruction : st.isInstruction = decide (i.kind = .instruction)

theorem contributes_comment {i : Item} (hkind : i.kind = .comment) (v : Version) :
    i.Contributes v (i.said v) := by
  have hreferences : i.references = [] := references_eq_nil (by simp [hkind])
  have hattribute : i.attribute? v = none := attribute?_eq_none (by simp [hkind]) v
  have hconstant : i.constant? = none := constant?_eq_none (by simp [hkind])
  have hsampler : i.sampler? = none := sampler?_eq_none (by simp [hkind])
  have hinstruction : false = decide (i.kind = .instruction) := by simp [hkind]
  cases htable : i.table? with
  | none =>
    have hsaid : i.said v = .nothing := by simp [said, hkind, htable]
    rw [hsaid]
    exact ⟨hreferences.symm, hattribute.symm, hconstant.symm, hsampler.symm, htable.symm,
      hinstruction⟩
  | some t =>
    have hsaid : i.said v = .table t := by simp [said, hkind, htable]
    rw [hsaid]
    exact ⟨hreferences.symm, hattribute.symm, hconstant.symm, hsampler.symm, htable.symm,
      hinstruction⟩

theorem contributes_declaration {i : Item} (hkind : i.kind = .declaration) (v : Version) :
    i.Contributes v (i.said v) := by
  have hreferences : i.references = [] := references_eq_nil (by simp [hkind])
  have hconstant : i.constant? = none := constant?_eq_none (by simp [hkind])
  have htable : i.table? = none := table?_eq_none (by simp [hkind])
  have hinstruction : false = decide (i.kind = .instruction) := by simp [hkind]
  cases hattribute : i.attribute? v with
  | some a =>
    have hsampler : i.sampler? = none := sampler?_eq_none_of_attribute? hattribute
    have hsaid : i.said v = .input a := by simp [said, hkind, hattribute]
    rw [hsaid]
    exact ⟨hreferences.symm, hattribute.symm, hconstant.symm, hsampler.symm, htable.symm,
      hinstruction⟩
  | none =>
    cases hsampler : i.sampler? with
    | none =>
      have hsaid : i.said v = .nothing := by simp [said, hkind, hattribute, hsampler]
      rw [hsaid]
      exact ⟨hreferences.symm, hattribute.symm, hconstant.symm, hsampler.symm, htable.symm,
        hinstruction⟩
    | some declared =>
      have hsaid : i.said v = .sampler declared.1 declared.2 := by
        simp [said, hkind, hattribute, hsampler]
      rw [hsaid]
      exact ⟨hreferences.symm, hattribute.symm, hconstant.symm, hsampler.symm, htable.symm,
        hinstruction⟩

theorem contributes_definition {i : Item} {type : ConstantType} (hkind : i.kind = .definition type)
    (v : Version) : i.Contributes v (i.said v) := by
  have hreferences : i.references = [] := references_eq_nil (by simp [hkind])
  have hattribute : i.attribute? v = none := attribute?_eq_none (by simp [hkind]) v
  have hsampler : i.sampler? = none := sampler?_eq_none (by simp [hkind])
  have htable : i.table? = none := table?_eq_none (by simp [hkind])
  have hinstruction : false = decide (i.kind = .instruction) := by simp [hkind]
  cases hconstant : i.constant? with
  | none =>
    have hsaid : i.said v = .nothing := by simp [said, hkind, hconstant]
    rw [hsaid]
    exact ⟨hreferences.symm, hattribute.symm, hconstant.symm, hsampler.symm, htable.symm,
      hinstruction⟩
  | some c =>
    have hsaid : i.said v = .constant c := by simp [said, hkind, hconstant]
    rw [hsaid]
    exact ⟨hreferences.symm, hattribute.symm, hconstant.symm, hsampler.symm, htable.symm,
      hinstruction⟩

theorem contributes_instruction {i : Item} (hkind : i.kind = .instruction) (v : Version) :
    i.Contributes v (i.said v) := by
  have hattribute : i.attribute? v = none := attribute?_eq_none (by simp [hkind]) v
  have hconstant : i.constant? = none := constant?_eq_none (by simp [hkind])
  have hsampler : i.sampler? = none := sampler?_eq_none (by simp [hkind])
  have htable : i.table? = none := table?_eq_none (by simp [hkind])
  have hsaid : i.said v = .instruction i.references := by simp only [said, hkind]
  rw [hsaid]
  exact ⟨rfl, hattribute.symm, hconstant.symm, hsampler.symm, htable.symm, by
    simp [hkind, Statement.isInstruction]⟩

theorem contributes_said (v : Version) (i : Item) : i.Contributes v (i.said v) := by
  cases hkind : i.kind with
  | comment => exact contributes_comment hkind v
  | declaration => exact contributes_declaration hkind v
  | definition type => exact contributes_definition hkind v
  | instruction => exact contributes_instruction hkind v

end Item

/-! ## Rows of items -/

theorem payloadSize_eq (i : Item) : payloadSize i.token = i.announced := by
  have hcomment : opcode i.token = commentOpcode ↔ i.kind = .comment := by
    have hcode : opcode i.token = commentOpcode ↔ i.code = 0xFFFE := i.opcode_eq_iff rfl
    rw [hcode, Item.kind]
    split <;> simp_all
  have hlong : ((i.token >>> 16) &&& 0x7FFF).toNat = bits i.token 16 15 :=
    toNat_shiftRight_and i.token rfl (by decide) rfl
  have hshort : ((i.token >>> 24) &&& 0x0F).toNat = bits i.token 24 4 :=
    toNat_shiftRight_and i.token rfl (by decide) rfl
  simp only [payloadSize, Item.announced, hcomment, hlong, hshort]

theorem wordsOfItems_cons (i : Item) (items : List Item) :
    wordsOfItems (i :: items) = i.token :: (i.payload ++ wordsOfItems items) := rfl

/-- Items that are taken off some words have the words that they announce. -/
theorem isShaped_of_mem_splitItems (words : List UInt32) :
    ∀ i ∈ (splitItems words).1, i.IsShaped := by
  fun_induction splitItems words with
  | case1 => simp
  | case2 words => simp
  | case3 token words hend hcut => simp
  | case4 token words hend payload rest hsplit items ending hrest ih =>
    rw [hrest] at ih
    have hlength := (splitOff?_eq_some_iff.1 hsplit).2
    have hshaped : Item.IsShaped ⟨token, payload⟩ :=
      ⟨hend, hlength.trans (payloadSize_eq ⟨token, payload⟩)⟩
    exact List.forall_mem_cons.2 ⟨hshaped, ih⟩

/-- Items with the words that they announce are taken off as they are, whatever follows them. -/
theorem splitItems_append {items : List Item} (hshaped : ∀ i ∈ items, i.IsShaped)
    (rest : List UInt32) :
    splitItems (wordsOfItems items ++ rest) =
      (items ++ (splitItems rest).1, (splitItems rest).2) := by
  induction items with
  | nil => rfl
  | cons i items ih =>
    obtain ⟨hi, hitems⟩ := List.forall_mem_cons.1 hshaped
    have hsplit : splitOff? (payloadSize i.token) (i.payload ++ (wordsOfItems items ++ rest)) =
        some (i.payload, wordsOfItems items ++ rest) :=
      splitOff?_eq_some_iff.2 ⟨rfl, hi.length.trans (payloadSize_eq i).symm⟩
    have hend : i.token ≠ endWord := hi.notEnd
    rw [wordsOfItems_cons, List.cons_append, List.append_assoc, splitItems, if_neg hend]
    split
    · rename_i hnone
      rw [hsplit] at hnone
      cases hnone
    · rename_i payload rest hsome
      rw [hsplit] at hsome
      cases hsome
      rw [ih hitems]
      rfl

theorem splitItems_wordsOfItems {items : List Item} (hshaped : ∀ i ∈ items, i.IsShaped)
    (after : List UInt32) :
    splitItems (wordsOfItems items ++ endWord :: after) = (items, .closed after) := by
  have hend : splitItems (endWord :: after) = ([], .closed after) := by rw [splitItems, if_pos rfl]
  rw [splitItems_append hshaped, hend, List.append_nil]

/-- **Words are a closed row of items in one way at most**: if they are the words of items that have
what they announce, an end word, and others. -/
theorem splitItems_eq_closed_iff {words : List UInt32} {items : List Item} {after : List UInt32} :
    splitItems words = (items, .closed after) ↔
      words = wordsOfItems items ++ endWord :: after ∧ ∀ i ∈ items, i.IsShaped := by
  constructor
  · intro h
    have hwords := wordsOfItems_splitItems words
    have hshaped := isShaped_of_mem_splitItems words
    rw [h] at hwords hshaped
    exact ⟨hwords.symm, hshaped⟩
  · rintro ⟨rfl, hshaped⟩
    exact splitItems_wordsOfItems hshaped after

/-- The items of a shader are read one by one. -/
theorem statements_eq_ok_iff {v : Version} {index : Nat} {items : List Item}
    {ss : List Statement} :
    statements v index items = .ok ss ↔
      (∀ i ∈ items, i.IsValid v) ∧ ss = items.map (Item.said v) := by
  induction items generalizing index ss with
  | nil => simp [statements, eq_comm]
  | cons i items ih =>
    rw [statements, List.forall_mem_cons, List.map_cons]
    cases hstatement : i.statement v with
    | error e =>
      have hinvalid : ¬ i.IsValid v := fun h => by
        rw [Item.statement_eq_ok_iff.2 ⟨h, rfl⟩] at hstatement
        cases hstatement
      simp [hinvalid]
    | ok st =>
      obtain ⟨hvalid, rfl⟩ := Item.statement_eq_ok_iff.1 hstatement
      cases hrest : statements v (index + i.size) items with
      | error e =>
        have hinvalid : ¬ ∀ i ∈ items, i.IsValid v := fun h => by
          rw [ih.2 ⟨h, rfl⟩] at hrest
          cases hrest
        simp [hinvalid]
      | ok rest =>
        obtain ⟨hitems, rfl⟩ := ih.1 hrest
        simp [hvalid, and_iff_right hitems, eq_comm (a := ss)]

/-! ## Versions -/

/-- What the first word has to be for a kind that is in its high half. -/
theorem word_eq_of_toNat {token : UInt32} {kind : ShaderKind} {high : Nat}
    (hhigh : token.toNat / 2 ^ 16 = high)
    (hkind : (if kind = .vertex then 0xFFFE else 0xFFFF) = high) :
    Version.word ⟨kind, bits token 8 8, bits token 0 8⟩ = token := by
  have hlt := token.toNat_lt
  rw [← UInt32.toNat_inj, Version.word, UInt32.toNat_ofNat']
  simp only [hkind, bits]
  omega

theorem version_eq_ok_iff {token : UInt32} {v : Version} :
    version token = .ok v ↔ v.IsSupported ∧ v.word = token := by
  have hmajor : ((token >>> 8) &&& 0xFF).toNat = bits token 8 8 :=
    toNat_shiftRight_and token rfl (by decide) rfl
  have hminor : (token &&& 0xFF).toNat = bits token 0 8 := toNat_and token rfl
  have hhigh : (token >>> 16).toNat = token.toNat / 2 ^ 16 := toNat_shiftRight token rfl (by decide)
  constructor
  · intro h
    rw [version, hmajor, hminor, hhigh] at h
    split at h
    · rename_i hvertex
      simp only [pure_bind] at h
      split at h
      · rename_i hmodel
        cases h
        exact ⟨⟨.inl rfl, by simpa [supportedModels] using hmodel⟩, word_eq_of_toNat hvertex rfl⟩
      · cases h
    · rename_i hpixel
      simp only [pure_bind] at h
      split at h
      · rename_i hmodel
        cases h
        exact ⟨⟨.inr rfl, by simpa [supportedModels] using hmodel⟩, word_eq_of_toNat hpixel rfl⟩
      · cases h
    · cases h
  · rintro ⟨⟨hkind, hmodel⟩, rfl⟩
    obtain ⟨kind, major, minor⟩ := v
    simp only [List.mem_cons, Prod.mk.injEq, List.not_mem_nil, or_false] at hkind hmodel
    rcases hkind with rfl | rfl <;> rcases hmodel with ⟨rfl, rfl⟩ | ⟨rfl, rfl⟩ | ⟨rfl, rfl⟩ <;> rfl

/-! ## Shaders -/

theorem shaderWords_eq_ok_iff {bytes : List UInt8} {token : UInt32} {words : List UInt32} :
    shaderWords bytes = .ok (token, words) ↔ bytes = bytesOfWords (token :: words) := by
  rw [shaderWords, ← words?_eq_some_iff]
  cases bytes with
  | nil => simp [words?]
  | cons b bytes =>
    rw [List.isEmpty_cons, if_neg Bool.false_ne_true]
    split
    · rename_i hwords
      simp [hwords]
    · rename_i hwords
      exact iff_of_false (by simp) (hwords token words)

theorem checkEnding_eq_ok_iff {size : Nat} {ending : Ending} :
    checkEnding size ending = .ok () ↔ ∃ after, ending = .closed after := by
  cases ending with
  | closed after => simp [checkEnding]
  | missingEnd => simp [checkEnding]
  | cutShort token words => simp [checkEnding]

/-- **Bytes have statements if and only if they are those of a stream**, and the statements are what
its items say. -/
theorem shaderStatements_eq_ok_iff {bytes : List UInt8} {v : Version} {ss : List Statement} :
    shaderStatements bytes = .ok (v, ss) ↔
      ∃ s : TokenStream, s.bytes = bytes ∧ s.version = v ∧ s.items.map (Item.said v) = ss := by
  constructor
  · intro h
    obtain ⟨⟨token, words⟩, hwords, h⟩ := bind_eq_ok_iff.1 h
    obtain ⟨v', hversion, h⟩ := bind_eq_ok_iff.1 h
    obtain ⟨ss', hstatements, h⟩ := bind_eq_ok_iff.1 h
    obtain ⟨⟨⟩, hending, h⟩ := bind_eq_ok_iff.1 h
    cases h
    obtain ⟨hsupported, rfl⟩ := version_eq_ok_iff.1 hversion
    obtain ⟨hvalid, rfl⟩ := statements_eq_ok_iff.1 hstatements
    obtain ⟨after, hafter⟩ := checkEnding_eq_ok_iff.1 hending
    have hsplit : splitItems words = ((splitItems words).1, .closed after) := by rw [← hafter]
    obtain ⟨hitems, hshaped⟩ := splitItems_eq_closed_iff.1 hsplit
    refine ⟨⟨v, (splitItems words).1, after, hsupported, hshaped, hvalid⟩, ?_, rfl, rfl⟩
    rw [shaderWords_eq_ok_iff.1 hwords, TokenStream.bytes, TokenStream.words]
    exact congrArg (fun ws => bytesOfWords (v.word :: ws)) hitems.symm
  · rintro ⟨s, rfl, rfl, rfl⟩
    have hsplit : splitItems (wordsOfItems s.items ++ 0x0000FFFF :: s.after) =
        (s.items, .closed s.after) := splitItems_wordsOfItems s.shaped s.after
    refine bind_eq_ok_iff.2 ⟨_, shaderWords_eq_ok_iff.2 rfl, ?_⟩
    refine bind_eq_ok_iff.2 ⟨s.version, version_eq_ok_iff.2 ⟨s.supported, rfl⟩, ?_⟩
    dsimp only
    rw [hsplit]
    refine bind_eq_ok_iff.2 ⟨_, statements_eq_ok_iff.2 ⟨s.valid, rfl⟩, ?_⟩
    exact bind_eq_ok_iff.2 ⟨(), checkEnding_eq_ok_iff.2 ⟨s.after, rfl⟩, rfl⟩

/-- The statements of items amount to the reflection that the items mean. -/
theorem reflect_said (profile : String) (s : TokenStream) :
    reflect profile s.version (s.items.map (Item.said s.version)) = s.reflection profile := by
  have hpart {α : Type} (f : Statement → Option α) (g : Item → Option α)
      (h : ∀ i, f (i.said s.version) = g i) :
      (s.items.map (Item.said s.version)).filterMap f = s.items.filterMap g := by
    rw [List.filterMap_map]
    exact congrArg (fun g => s.items.filterMap g) (funext h)
  have hattributes := hpart _ _ fun i => (i.contributes_said s.version).attribute?
  have hconstants := hpart _ _ fun i => (i.contributes_said s.version).constant?
  have hsamplers := hpart _ _ fun i => (i.contributes_said s.version).sampler?
  have htables := hpart _ _ fun i => (i.contributes_said s.version).table?
  have hreferences : (s.items.map (Item.said s.version)).flatMap (·.references) =
      s.items.flatMap (·.references) := by
    rw [List.flatMap_map]
    exact congrArg (fun g => s.items.flatMap g)
      (funext fun i => (i.contributes_said s.version).references)
  have hcount : (s.items.map (Item.said s.version)).countP (·.isInstruction) =
      s.items.countP fun i => i.kind = .instruction := by
    rw [List.countP_map]
    exact congrArg (fun g => s.items.countP g)
      (funext fun i => (i.contributes_said s.version).isInstruction)
  have htable : lastTable? (s.items.map (Item.said s.version)) = s.table? :=
    congrArg List.getLast? htables
  rw [reflect, samplers, hattributes, hconstants, hsamplers, htable, hreferences, hcount]
  rfl

section

variable {profile : String} (hprofile : Profile.isSupported profile = true)

include hprofile

/-- What is read from a stream is its reflection. -/
theorem readShader_bytes (s : TokenStream) :
    readShader profile s.bytes = s.reflection profile := by
  have hstatements := shaderStatements_eq_ok_iff.2 ⟨s, rfl, rfl, rfl⟩
  rw [readShader, if_pos hprofile, hstatements]
  exact reflect_said profile s

end

/-- Whatever is read without a diagnostic is a stream. -/
theorem exists_stream_of_diagnostics_eq_nil {profile : String} {bytes : List UInt8}
    (h : (readShader profile bytes).diagnostics = []) :
    Profile.isSupported profile = true ∧ ∃ s : TokenStream, s.bytes = bytes := by
  rw [readShader] at h
  split at h
  · rename_i hprofile
    split at h
    · rename_i v ss hstatements
      obtain ⟨s, hbytes, -⟩ := shaderStatements_eq_ok_iff.1 hstatements
      exact ⟨hprofile, s, hbytes⟩
    · cases h
  · cases h

/-- Each item of a stream takes a word at least. -/
theorem TokenStream.length_items_le (s : TokenStream) : 4 * s.items.length ≤ s.bytes.length := by
  have hwords (items : List Item) : items.length ≤ (wordsOfItems items).length := by
    induction items with
    | nil => exact Nat.le_refl 0
    | cons i items ih =>
      rw [wordsOfItems_cons, List.length_cons, List.length_cons, List.length_append]
      omega
  have hitems := hwords s.items
  rw [TokenStream.bytes, length_bytesOfWords, TokenStream.words, List.length_cons,
    List.length_append]
  omega

/-- **A count of instructions fits a word**, as long as the bytes are fewer than four times as many
as a word can tell. -/
theorem instructionCount_readShader_le (profile : String) (bytes : List UInt8) :
    4 * (readShader profile bytes).instructionCount ≤ bytes.length := by
  rw [readShader]
  split
  · split
    · rename_i v ss hstatements
      obtain ⟨s, rfl, rfl, rfl⟩ := shaderStatements_eq_ok_iff.1 hstatements
      have hcount : (s.items.map (Item.said s.version)).countP (·.isInstruction) ≤
          s.items.length := List.countP_le_length.trans_eq (List.length_map _)
      exact (Nat.mul_le_mul_left 4 hcount).trans s.length_items_le
    · exact Nat.zero_le _
  · exact Nat.zero_le _

/-- **The reader accepts exactly the token streams, and reads them right.**  For a profile that is
supported, there is no diagnostic if and only if the bytes are those of a stream; and what is read
from a stream is what its version and its items mean, whatever follows the end word. -/
theorem readShader_correct (profile : String) (hprofile : profile ∈ Profile.supported)
    (bytes : List UInt8) :
    ((readShader profile bytes).diagnostics = [] ↔ ∃ s : TokenStream, s.bytes = bytes) ∧
      ∀ s : TokenStream, s.bytes = bytes →
        readShader profile bytes = s.reflection profile ∧
          ∀ after, readShader profile { s with after }.bytes = readShader profile bytes := by
  have hsupported : Profile.isSupported profile = true := List.contains_iff_mem.2 hprofile
  refine ⟨⟨fun h => (exists_stream_of_diagnostics_eq_nil h).2, ?_⟩, ?_⟩
  · rintro ⟨s, rfl⟩
    rw [readShader_bytes hsupported]
    rfl
  · rintro s rfl
    refine ⟨readShader_bytes hsupported s, fun after => ?_⟩
    rw [readShader_bytes hsupported, readShader_bytes hsupported]
    rfl

/-- A pixel shader that declares `t0`, defines `c0`, and moves `c1`, with a word behind its end. -/
def movingStream : TokenStream where
  version := ⟨.pixel, 2, 0⟩
  items :=
    [⟨0x0200001F, [0x80000000, 0xB0000000]⟩,
     ⟨0x05000051, [0xA0000000, 0x3F800000, 0, 0, 0x3F800000]⟩,
     ⟨0x02000001, [0x80000000, 0xA0000001]⟩]
  after := [0xFFFE0200]
  supported := ⟨.inr rfl, by decide⟩
  shaped := by decide
  valid := by decide

theorem readShader_correct_movingStream :
    "glsl" ∈ Profile.supported ∧ (readShader "glsl" movingStream.bytes).diagnostics = [] ∧
      readShader "glsl" movingStream.bytes =
        { profile := "glsl", kind := .pixel, major := 2, minor := 0, instructionCount := 1
          attributes := [{ usage := .texCoord, index := 0 }]
          constants := [⟨0, .float ⟨⟨0x3F800000⟩, ⟨0⟩, ⟨0⟩, ⟨0x3F800000⟩⟩⟩]
          uniforms := [{ index := 1, type := .float, arrayCount := 0, constant := false,
                         name := none }] } := by
  have hprofile : "glsl" ∈ Profile.supported := by decide
  obtain ⟨haccepted, hread⟩ := readShader_correct "glsl" hprofile movingStream.bytes
  exact ⟨hprofile, haccepted.2 ⟨movingStream, rfl⟩, (hread movingStream rfl).1⟩

end Bytecode
end ShaderKit
