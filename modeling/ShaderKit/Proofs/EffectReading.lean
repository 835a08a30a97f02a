import ShaderKit.Proofs.EffectLayout
import ShaderKit.Proofs.FieldReading

/-!
# Effects are read right

Each part of an effect is read from its fields as what it is (`reads_pass`, `reads_technique` and so
on), provided that the names of the part are stored in the file; and whatever the reader accepts is
such a part (`recovers_pass`, `recovers_technique`).  Put together, the reader accepts exactly the
files that an effect is laid out in, and reads the effect from them.

For each part there are two theorems.  The one that begins with `reads` goes from the layout to the
reader: it is the lemma on `bind` once for each step that the reader takes, and the term has the
shape of the definition.  The one that begins with `recovers` goes back: it takes the steps apart,
finds for each of them the field that was read, and has to say in the end which layout these are the
fields of.

Names are the part that does not follow this pattern, as they are not among the fields.  A name is
read at a place of its own, with a reader that starts there and is not continued
(`nameAt_eq_ok_iff`); the reader of the fields reads only where that is.  So what a part says of its
names is carried along as a side condition, `valid` in `Recovers`.
-/

set_option autoImplicit false

namespace ShaderKit
namespace Bytecode

open Reader

section

variable {file : List UInt8}

/-! ## Counted lists -/

theorem reads_countedBytes (l : Counted UInt8) :
    Reads (Reader.bytes l.count.toNat) [l.items] l.items := by
  rw [l.toNat_count]
  exact reads_bytes l.items

/-- Bytes that were counted by a word are a list that a word counts. -/
theorem rest_of_countedBytes {c c' : Cursor} {w : UInt32} {taken : List UInt8}
    (h : Reader.bytes w.toNat c = .ok (taken, c')) :
    ∃ l : Counted UInt8, l.items = taken ∧ l.count = w ∧ c.rest = taken ++ c'.rest := by
  obtain ⟨hrest, hlength⟩ := rest_of_bytes h
  obtain ⟨l, hitems, hcount⟩ := Counted.exists_of_toNat_eq hlength
  exact ⟨l, hitems, hcount, hrest⟩

section

variable {α γ : Type} {r : Reader α} {fields : γ → List (List UInt8)} {value : γ → α}
  {valid : γ → Prop}

/-- A list is read item by item, as its count says. -/
theorem reads_counted {l : Counted γ} (h : ∀ x ∈ l.items, Reads r (fields x) (value x)) :
    Reads (Reader.times l.count.toNat r) (l.items.flatMap fields) (l.items.map value) := by
  rw [l.toNat_count]
  exact reads_times h

/-- If all that a reader accepts are the fields of something, then a counted list of what it reads
is a list of such things. -/
theorem Reader.Recovers.counted (hr : Recovers r fields value valid) {c c' : Cursor} {w : UInt32}
    {values : List α} (h : Reader.times w.toNat r c = .ok (values, c')) :
    ∃ l : Counted γ, l.count = w ∧ l.items.map value = values ∧
      c.rest = (l.items.flatMap fields).flatten ++ c'.rest ∧ ∀ x ∈ l.items, valid x := by
  obtain ⟨items, hlength, hrest, hvalues, hvalid⟩ := hr.times h
  obtain ⟨l, rfl, hcount⟩ := Counted.exists_of_toNat_eq hlength
  exact ⟨l, hcount, hvalues, hrest, hvalid⟩

end

/-! ## Names -/

/-- What is read at the place of a name. -/
def readText : Reader String := do return nameOfBytes (← Reader.bytes (← Reader.count))

theorem nameAt_eq (file : List UInt8) (offset : UInt32) :
    nameAt file offset =
      (readText ⟨stringsStart + offset.toNat,
        file.drop (stringsStart + offset.toNat)⟩).map (·.1) := by
  rw [nameAt, readText]
  cases (do return nameOfBytes (← Reader.bytes (← Reader.count)) : Reader String)
      ⟨stringsStart + offset.toNat, file.drop (stringsStart + offset.toNat)⟩ with
  | ok p => rfl
  | error e => rfl

/-- At its place, a name is counted like any other list of bytes. -/
theorem reads_text (text : Counted UInt8) :
    Reads readText [bytesOfWord text.count, text.items] (nameOfBytes text.items) :=
  (reads_count text.count).bind (reads_countedBytes text).returning

/-- A name is found where it is stored, and nothing else is found there. -/
theorem nameAt_eq_ok_iff {offset : UInt32} {name : String} :
    nameAt file offset = .ok name ↔
      ∃ n : StoredName, n.offset = offset ∧ n.IsIn file ∧ n.name = name := by
  rw [nameAt_eq]
  constructor
  · intro h
    cases htext : readText ⟨stringsStart + offset.toNat,
        file.drop (stringsStart + offset.toNat)⟩ with
    | error e =>
      rw [htext] at h
      cases h
    | ok p =>
      rw [htext] at h
      cases h
      obtain ⟨size, c₁, hcount, hafter⟩ := exists_of_bind_eq_ok htext
      obtain ⟨bytes, c₂, hbytes, hreturn⟩ := exists_of_bind_eq_ok hafter
      obtain ⟨hname, -⟩ := eq_of_pure_eq_ok hreturn
      obtain ⟨w, rfl, hrest⟩ := rest_of_count hcount
      obtain ⟨text, rfl, rfl, hrest'⟩ := rest_of_countedBytes hbytes
      refine ⟨⟨offset, text⟩, rfl, ⟨c₂.rest, ?_⟩, hname⟩
      rw [StoredName.bytes, List.append_assoc, ← hrest', ← hrest]
  · rintro ⟨n, rfl, ⟨rest, hrest⟩, rfl⟩
    have hread := (reads_text n.text).whole (stringsStart + n.offset.toNat) rest
    have hfields : [bytesOfWord n.text.count, n.text.items].flatten = n.bytes := by
      simp [StoredName.bytes]
    rw [hfields, hrest] at hread
    rw [hread]
    rfl

/-- The field of a name is its offset; the name is found where it is stored. -/
theorem reads_name {n : StoredName} (h : n.IsIn file) :
    Reads (readName file) [bytesOfWord n.offset] n.name :=
  (reads_word n.offset).bind (reads_lift (nameAt_eq_ok_iff.2 ⟨n, rfl, h, rfl⟩))

theorem rest_of_name {c c' : Cursor} {name : String} (h : readName file c = .ok (name, c')) :
    ∃ n : StoredName, c.rest = bytesOfWord n.offset ++ c'.rest ∧ n.name = name ∧ n.IsIn file := by
  obtain ⟨offset, c₁, hword, h⟩ := exists_of_bind_eq_ok h
  cases hname : nameAt file offset with
  | error e =>
    rw [hname] at h
    cases h
  | ok s =>
    rw [hname] at h
    cases h
    obtain ⟨n, rfl, hn, rfl⟩ := nameAt_eq_ok_iff.1 hname
    exact ⟨n, rest_of_word hword, rfl, hn⟩

/-! ## Annotations -/

theorem reads_annotations (a : Annotations) :
    Reads (skipAnnotations a.count.toNat) [a.bytes] () := by
  refine reads_skipWords ?_
  rw [a.toNat_count]
  exact length_flatMap_blocks a.items

/-- What was skipped for annotations is a list of them. -/
theorem rest_of_annotations {c c' : Cursor} {w : UInt32} {u : Unit}
    (h : skipAnnotations w.toNat c = .ok (u, c')) :
    ∃ a : Annotations, a.count = w ∧ c.rest = a.bytes ++ c'.rest := by
  obtain ⟨skipped, hlength, hrest⟩ := rest_of_skipWords h
  obtain ⟨blocks, hblocks, rfl⟩ := exists_blocks hlength
  obtain ⟨a, rfl, hcount⟩ := Counted.exists_of_toNat_eq hblocks
  exact ⟨a, hcount, hrest⟩

theorem reads_block {words : Nat} (b : Block words) :
    Reads (Reader.skipWords words) [b.bytes] () :=
  reads_skipWords b.length_eq

theorem rest_of_block {c c' : Cursor} {words : Nat} {u : Unit}
    (h : Reader.skipWords words c = .ok (u, c')) :
    ∃ b : Block words, c.rest = b.bytes ++ c'.rest := by
  obtain ⟨skipped, hlength, hrest⟩ := rest_of_skipWords h
  exact ⟨⟨skipped, hlength⟩, hrest⟩

/-! ## Parameters -/

theorem reads_parameter (p : ParameterLayout) : Reads skipParameter p.fields () :=
  (reads_block p.value).bind ((reads_count p.annotations.count).bind
    (reads_annotations p.annotations))

theorem recovers_parameter :
    Recovers skipParameter ParameterLayout.fields (fun _ => ()) fun _ => True := by
  intro c c' u h
  obtain ⟨_, c₁, hvalue, h⟩ := exists_of_bind_eq_ok h
  obtain ⟨count, c₂, hcount, h⟩ := exists_of_bind_eq_ok h
  obtain ⟨value, hrest₁⟩ := rest_of_block hvalue
  obtain ⟨w, rfl, hrest₂⟩ := rest_of_count hcount
  obtain ⟨annotations, rfl, hrest₃⟩ := rest_of_annotations h
  refine ⟨⟨value, annotations⟩, ?_, rfl, trivial⟩
  rw [hrest₁, hrest₂, hrest₃]
  simp [ParameterLayout.fields]

/-! ## Techniques, passes and states -/

theorem reads_state (s : StateLayout) : Reads readState s.fields s.type :=
  (reads_word s.type).bind ((reads_block s.value).returning)

theorem recovers_state : Recovers readState StateLayout.fields StateLayout.type fun _ => True := by
  intro c c' type h
  obtain ⟨type', c₁, htype, h⟩ := exists_of_bind_eq_ok h
  obtain ⟨_, c₂, hvalue, h⟩ := exists_of_bind_eq_ok h
  obtain ⟨rfl, rfl⟩ := eq_of_pure_eq_ok h
  obtain ⟨value, hrest⟩ := rest_of_block hvalue
  refine ⟨⟨type', value⟩, ?_, rfl, trivial⟩
  rw [rest_of_word htype, hrest]
  simp [StateLayout.fields]

theorem reads_pass {p : PassLayout} (h : p.name.IsIn file) :
    Reads (readPass file) p.fields p.pass :=
  (reads_name h).bind ((reads_count p.annotations.count).bind
    ((reads_count p.states.count).bind ((reads_annotations p.annotations).bind
      (reads_counted fun s _ => reads_state s).returning)))

theorem recovers_pass :
    Recovers (readPass file) PassLayout.fields PassLayout.pass fun p => p.name.IsIn file := by
  intro c c' pass h
  obtain ⟨name, c₁, hname, h⟩ := exists_of_bind_eq_ok h
  obtain ⟨annotationCount, c₂, hannotationCount, h⟩ := exists_of_bind_eq_ok h
  obtain ⟨stateCount, c₃, hstateCount, h⟩ := exists_of_bind_eq_ok h
  obtain ⟨_, c₄, hannotations, h⟩ := exists_of_bind_eq_ok h
  obtain ⟨types, c₅, hstates, h⟩ := exists_of_bind_eq_ok h
  obtain ⟨rfl, rfl⟩ := eq_of_pure_eq_ok h
  obtain ⟨n, hrest₁, rfl, hn⟩ := rest_of_name hname
  obtain ⟨w, rfl, hrest₂⟩ := rest_of_count hannotationCount
  obtain ⟨w', rfl, hrest₃⟩ := rest_of_count hstateCount
  obtain ⟨annotations, rfl, hrest₄⟩ := rest_of_annotations hannotations
  obtain ⟨states, rfl, rfl, hrest₅, -⟩ := recovers_state.counted hstates
  refine ⟨⟨n, annotations, states⟩, ?_, rfl, hn⟩
  rw [hrest₁, hrest₂, hrest₃, hrest₄, hrest₅]
  simp [PassLayout.fields]

theorem reads_technique {t : TechniqueLayout} (h : ∀ n ∈ t.names, n.IsIn file) :
    Reads (readTechnique file) t.fields t.technique := by
  rw [TechniqueLayout.names, List.forall_mem_cons, List.forall_mem_map] at h
  exact (reads_name h.1).bind ((reads_count t.annotations.count).bind
    ((reads_count t.passes.count).bind ((reads_annotations t.annotations).bind
      (reads_counted fun p hp => reads_pass (h.2 p hp)).returning)))

theorem recovers_technique :
    Recovers (readTechnique file) TechniqueLayout.fields TechniqueLayout.technique
      fun t => ∀ n ∈ t.names, n.IsIn file := by
  intro c c' technique h
  obtain ⟨name, c₁, hname, h⟩ := exists_of_bind_eq_ok h
  obtain ⟨annotationCount, c₂, hannotationCount, h⟩ := exists_of_bind_eq_ok h
  obtain ⟨passCount, c₃, hpassCount, h⟩ := exists_of_bind_eq_ok h
  obtain ⟨_, c₄, hannotations, h⟩ := exists_of_bind_eq_ok h
  obtain ⟨read, c₅, hpasses, h⟩ := exists_of_bind_eq_ok h
  obtain ⟨rfl, rfl⟩ := eq_of_pure_eq_ok h
  obtain ⟨n, hrest₁, rfl, hn⟩ := rest_of_name hname
  obtain ⟨w, rfl, hrest₂⟩ := rest_of_count hannotationCount
  obtain ⟨w', rfl, hrest₃⟩ := rest_of_count hpassCount
  obtain ⟨annotations, rfl, hrest₄⟩ := rest_of_annotations hannotations
  obtain ⟨passes, rfl, rfl, hrest₅, hnames⟩ := recovers_pass.counted hpasses
  refine ⟨⟨n, annotations, passes⟩, ?_, rfl, ?_⟩
  · rw [hrest₁, hrest₂, hrest₃, hrest₄, hrest₅]
    simp [TechniqueLayout.fields]
  · exact List.forall_mem_cons.2 ⟨hn, List.forall_mem_map.2 hnames⟩

/-! ## Textures and shaders -/

/-- The number of bytes that fill a name up to whole words. -/
theorem TextureLayout.padding_length (t : TextureLayout) :
    t.padding.length = (4 - t.name.items.length % 4) % 4 := by
  have hlt := t.padding_lt
  have hpadded := t.padded
  omega

theorem reads_texture (t : TextureLayout) : Reads readTexture t.fields t.texture := by
  have hpadding :
      Reads (Reader.bytes ((4 - t.name.count.toNat % 4) % 4)) [t.padding] t.padding := by
    rw [t.name.toNat_count, ← t.padding_length]
    exact reads_bytes t.padding
  exact (reads_word t.parameter).bind ((reads_count t.name.count).bind
    ((reads_countedBytes t.name).bind hpadding.returning))

theorem recovers_texture :
    Recovers readTexture TextureLayout.fields TextureLayout.texture fun _ => True := by
  intro c c' texture h
  obtain ⟨parameter, c₁, hparameter, h⟩ := exists_of_bind_eq_ok h
  obtain ⟨size, c₂, hsize, h⟩ := exists_of_bind_eq_ok h
  obtain ⟨name, c₃, hname, h⟩ := exists_of_bind_eq_ok h
  obtain ⟨padding, c₄, hpadding, h⟩ := exists_of_bind_eq_ok h
  obtain ⟨rfl, rfl⟩ := eq_of_pure_eq_ok h
  obtain ⟨w, rfl, hrest⟩ := rest_of_count hsize
  obtain ⟨text, rfl, rfl, hrest'⟩ := rest_of_countedBytes hname
  obtain ⟨hrest'', hlength⟩ := rest_of_bytes hpadding
  rw [text.toNat_count] at hlength
  refine ⟨⟨parameter, text, padding, by omega, by omega⟩, ?_, rfl, trivial⟩
  rw [rest_of_word hparameter, hrest, hrest', hrest'']
  simp [TextureLayout.fields]

theorem reads_shader (profile : String) (s : ShaderLayout) :
    Reads (readEffectShader profile) s.fields (s.shader profile) :=
  (reads_word s.technique).bind ((reads_word s.pass).bind ((reads_block s.reserved).bind
    ((reads_count s.code.count).bind (reads_countedBytes s.code).returning)))

theorem recovers_shader (profile : String) :
    Recovers (readEffectShader profile) ShaderLayout.fields (ShaderLayout.shader profile)
      fun _ => True := by
  intro c c' shader h
  obtain ⟨technique, c₁, htechnique, h⟩ := exists_of_bind_eq_ok h
  obtain ⟨pass, c₂, hpass, h⟩ := exists_of_bind_eq_ok h
  obtain ⟨_, c₃, hreserved, h⟩ := exists_of_bind_eq_ok h
  obtain ⟨size, c₄, hsize, h⟩ := exists_of_bind_eq_ok h
  obtain ⟨code, c₅, hcode, h⟩ := exists_of_bind_eq_ok h
  obtain ⟨rfl, rfl⟩ := eq_of_pure_eq_ok h
  obtain ⟨reserved, hrest₃⟩ := rest_of_block hreserved
  obtain ⟨w, rfl, hrest₄⟩ := rest_of_count hsize
  obtain ⟨text, rfl, rfl, hrest₅⟩ := rest_of_countedBytes hcode
  refine ⟨⟨technique, pass, reserved, text⟩, ?_, rfl, trivial⟩
  rw [rest_of_word htechnique, rest_of_word hpass, hrest₃, hrest₄, hrest₅]
  simp [ShaderLayout.fields]

/-! ## Effects -/

/-- What the states of all techniques set, in the order in which they stand. -/
theorem states_technique (techniques : List TechniqueLayout) :
    ((techniques.map (·.technique)).flatMap (·.passes)).flatMap (·.states) =
      (statesOf techniques).map (·.type) := by
  induction techniques with
  | nil => rfl
  | cons t techniques ih =>
    simp only [List.map_cons, List.flatMap_cons, List.flatMap_append, ih, statesOf, List.map_append]
    simp [TechniqueLayout.technique, PassLayout.pass, List.flatMap_map, List.map_flatMap]

/-- The reader expects as many shaders as there are. -/
theorem EffectLayout.shaderStates_eq (e : EffectLayout) :
    shaderStates (e.techniques.items.map (·.technique)) = e.shaders.length := by
  rw [shaderStates, states_technique, List.countP_map, e.complete]
  rfl

theorem reads_strings (strings : Counted UInt8) :
    Reads skipStrings [bytesOfWord strings.count, strings.items] () :=
  (reads_count strings.count).bind (reads_countedBytes strings).returning

/-- Everything behind the string block, in one row. -/
theorem reads_parts (profile : String) {e : EffectLayout} (h : ∀ n ∈ e.names, n.IsIn file) :
    Reads (readParts profile file) e.parts (e.reflection profile) := by
  rw [EffectLayout.names, List.forall_mem_flatMap] at h
  have hshaders : Reads (Reader.times (shaderStates (e.techniques.items.map (·.technique)))
      (readEffectShader profile)) (e.shaders.flatMap (·.fields))
      (e.shaders.map (·.shader profile)) := by
    rw [e.shaderStates_eq]
    exact reads_times fun s _ => reads_shader profile s
  exact (reads_count e.parameters.count).bind ((reads_count e.techniques.count).bind
    ((reads_block e.reserved).bind ((reads_counted fun p _ => reads_parameter p).bind
      ((reads_counted fun t ht => reads_technique (h t ht)).bind
        ((reads_count e.textures.count).bind ((reads_count e.objects).bind
          ((reads_counted fun t _ => reads_texture t).bind hshaders.returning)))))))

theorem reads_bundle (profile : String) {e : EffectLayout} (h : ∀ n ∈ e.names, n.IsIn file) :
    Reads (readBundle profile file) e.fields (e.reflection profile) :=
  (reads_strings e.strings).bind (reads_parts profile h)

/-- Whatever is accepted behind the mark is an effect, and its names are stored in the file. -/
theorem recovers_bundle (profile : String) :
    Recovers (readBundle profile file) (·.fields) (EffectLayout.reflection · profile)
      fun e => ∀ n ∈ e.names, n.IsIn file := by
  intro c c' reflection h
  obtain ⟨_, c₂, hstrings, h⟩ := exists_of_bind_eq_ok h
  obtain ⟨size, c₁, hsize, hstrings⟩ := exists_of_bind_eq_ok hstrings
  obtain ⟨block, c₂, hblock, hstrings⟩ := exists_of_bind_eq_ok hstrings
  obtain ⟨-, rfl⟩ := eq_of_pure_eq_ok hstrings
  obtain ⟨parameterCount, c₃, hparameterCount, h⟩ := exists_of_bind_eq_ok h
  obtain ⟨techniqueCount, c₄, htechniqueCount, h⟩ := exists_of_bind_eq_ok h
  obtain ⟨_, c₅, hreserved, h⟩ := exists_of_bind_eq_ok h
  obtain ⟨units, c₆, hparameters, h⟩ := exists_of_bind_eq_ok h
  obtain ⟨techniques, c₇, htechniques, h⟩ := exists_of_bind_eq_ok h
  obtain ⟨textureCount, c₈, htextureCount, h⟩ := exists_of_bind_eq_ok h
  obtain ⟨objectCount, c₉, hobjectCount, h⟩ := exists_of_bind_eq_ok h
  obtain ⟨textures, c₁₀, htextures, h⟩ := exists_of_bind_eq_ok h
  obtain ⟨shaders, c₁₁, hshaders, h⟩ := exists_of_bind_eq_ok h
  obtain ⟨rfl, rfl⟩ := eq_of_pure_eq_ok h
  -- each list that was read is one of layouts, as long as the count before it says; that there are
  -- as many shaders as states for them is what `complete` asks for
  obtain ⟨w₁, rfl, hrest₁⟩ := rest_of_count hsize
  obtain ⟨strings, rfl, rfl, hrest₂⟩ := rest_of_countedBytes hblock
  obtain ⟨w₂, rfl, hrest₃⟩ := rest_of_count hparameterCount
  obtain ⟨w₃, rfl, hrest₄⟩ := rest_of_count htechniqueCount
  obtain ⟨reserved, hrest₅⟩ := rest_of_block hreserved
  obtain ⟨parameters, rfl, -, hrest₆, -⟩ := recovers_parameter.counted hparameters
  obtain ⟨techniques, rfl, rfl, hrest₇, hnames⟩ := recovers_technique.counted htechniques
  obtain ⟨w₄, rfl, hrest₈⟩ := rest_of_count htextureCount
  obtain ⟨objects, rfl, hrest₉⟩ := rest_of_count hobjectCount
  obtain ⟨textures, rfl, rfl, hrest₁₀, -⟩ := recovers_texture.counted htextures
  obtain ⟨shaders, hlength, hrest₁₁, rfl, -⟩ := (recovers_shader profile).times hshaders
  rw [shaderStates, states_technique, List.countP_map] at hlength
  refine ⟨⟨strings, reserved, parameters, techniques, objects, textures, shaders, hlength⟩, ?_, rfl,
    List.forall_mem_flatMap.2 hnames⟩
  rw [hrest₁, hrest₂, hrest₃, hrest₄, hrest₅, hrest₆, hrest₇, hrest₈, hrest₉, hrest₁₀, hrest₁₁]
  simp [EffectLayout.fields, EffectLayout.parts]

/-! ## Files -/

theorem isEffect_iff : isEffect file = true ↔ effectMark <+: file := List.isPrefixOf_iff_prefix

/-- What is behind the mark of a file that an effect is laid out in. -/
theorem EffectLayout.IsIn.exists_rest {e : EffectLayout} (h : e.IsIn file) :
    ∃ rest, file = effectMark ++ (e.fields.flatten ++ rest) := by
  obtain ⟨rest, hfile⟩ := h.starts
  refine ⟨rest, ?_⟩
  rw [← hfile, EffectLayout.bytes, List.append_assoc]

/-- The reader succeeds on the files that an effect is laid out in, and on no others. -/
theorem effectReflection_eq_ok_iff {profile : String} {reflection : EffectReflection} :
    effectReflection profile file = .ok reflection ↔
      ∃ e : EffectLayout, e.IsIn file ∧ e.reflection profile = reflection := by
  constructor
  · intro h
    rw [effectReflection] at h
    cases hmark : isEffect file with
    | false =>
      rw [hmark] at h
      cases h
    | true =>
      rw [hmark] at h
      cases hread : readBundle profile file ⟨4, file.drop 4⟩ with
      | error error =>
        rw [hread] at h
        cases h
      | ok p =>
        rw [hread] at h
        cases h
        -- the reader starts behind the mark, and what is laid out there is an effect without it
        obtain ⟨rest, rfl⟩ := isEffect_iff.1 hmark
        obtain ⟨e, hrest, hreflection, hnames⟩ := recovers_bundle profile _ _ _ hread
        have hfile : rest = e.fields.flatten ++ p.2.rest := hrest
        refine ⟨e, ⟨⟨p.2.rest, ?_⟩, hnames⟩, hreflection⟩
        rw [EffectLayout.bytes, List.append_assoc, ← hfile]
  · rintro ⟨e, he, rfl⟩
    obtain ⟨rest, hfile⟩ := he.exists_rest
    have hmark : isEffect file = true := isEffect_iff.2 ⟨_, hfile.symm⟩
    have hread := (reads_bundle profile he.names).whole 4 rest
    have hrest : file.drop 4 = e.fields.flatten ++ rest := by
      rw [hfile]
      rfl
    rw [effectReflection, hmark, hrest, hread]
    rfl

end

section

variable {profile : String} {file : List UInt8}

/-- An effect that is laid out in a file is read from it. -/
theorem readEffect_of_isIn (hprofile : Profile.isSupported profile = true) {e : EffectLayout}
    (he : e.IsIn file) : readEffect profile file = e.reflection profile := by
  rw [readEffect, if_pos hprofile, effectReflection_eq_ok_iff.2 ⟨e, he, rfl⟩]

/-- Whatever is read without a diagnostic is an effect that is laid out in the file. -/
theorem exists_isIn_of_diagnostics_eq_nil (h : (readEffect profile file).diagnostics = []) :
    Profile.isSupported profile = true ∧ ∃ e : EffectLayout, e.IsIn file := by
  rw [readEffect] at h
  split at h
  · rename_i hprofile
    split at h
    · rename_i reflection hreflection
      obtain ⟨e, he, -⟩ := effectReflection_eq_ok_iff.1 hreflection
      exact ⟨hprofile, e, he⟩
    · cases h
  · cases h

end

/-- **The reader accepts exactly the files that an effect is laid out in, and reads the effect.**
For a profile that is supported, there is no diagnostic of the effect itself if and only if some
effect is laid out at the beginning of the file, with its names wherever they are said to be; and
what is read is that effect: its techniques with their passes and states, its textures, and for each
shader what is read from its bytecode, or why it could not be read. -/
theorem readEffect_correct (profile : String) (hprofile : profile ∈ Profile.supported)
    (file : List UInt8) :
    ((readEffect profile file).diagnostics = [] ↔ ∃ e : EffectLayout, e.IsIn file) ∧
      ∀ e : EffectLayout, e.IsIn file → readEffect profile file = e.reflection profile := by
  have hsupported : Profile.isSupported profile = true := List.contains_iff_mem.2 hprofile
  refine ⟨⟨fun h => (exists_isIn_of_diagnostics_eq_nil h).2, ?_⟩, ?_⟩
  · rintro ⟨e, he⟩
    rw [readEffect_of_isIn hsupported he]
    rfl
  · intro e he
    exact readEffect_of_isIn hsupported he

/-- An effect with one technique of one pass, whose name is stored within that of the technique.
The pass sets two shaders, and the second of them is no shader. -/
def nestedNameEffect : EffectLayout where
  strings := ⟨[5, 0, 0, 0, 1, 0, 0, 0, 0x51], by decide⟩
  reserved := ⟨[0, 0, 0, 0, 0, 0, 0, 0], by decide⟩
  parameters := ⟨[⟨⟨[1, 0, 0, 0, 2, 0, 0, 0, 3, 0, 0, 0], by decide⟩,
    ⟨[⟨[4, 0, 0, 0, 5, 0, 0, 0], by decide⟩], by decide⟩⟩], by decide⟩
  techniques := ⟨[⟨⟨0, ⟨[1, 0, 0, 0, 0x51], by decide⟩⟩,
    ⟨[⟨[6, 0, 0, 0, 7, 0, 0, 0], by decide⟩], by decide⟩,
    ⟨[⟨⟨4, ⟨[0x51], by decide⟩⟩, ⟨[], by decide⟩,
      ⟨[⟨0x92, ⟨[0, 0, 0, 0, 0, 0, 0, 0, 0, 0, 0, 0], by decide⟩⟩,
        ⟨0x0F, ⟨[0, 0, 0, 0, 0, 0, 0, 0, 1, 0, 0, 0], by decide⟩⟩,
        ⟨0x93, ⟨[0, 0, 0, 0, 0, 0, 0, 0, 2, 0, 0, 0], by decide⟩⟩], by decide⟩⟩],
      by decide⟩⟩], by decide⟩
  objects := 3
  textures := ⟨[⟨7, ⟨[0x61, 0x62], by decide⟩, [0, 0], by decide, by decide⟩], by decide⟩
  shaders := [⟨0, 0, ⟨[0, 0, 0, 0, 0, 0, 0, 0, 0, 0, 0, 0], by decide⟩,
      ⟨[0x00, 0x02, 0xFE, 0xFF, 0xFF, 0xFF, 0x00, 0x00], by decide⟩⟩,
    ⟨0, 0, ⟨[0, 0, 0, 0, 0, 0, 0, 0, 1, 0, 0, 0], by decide⟩, ⟨[0xFF], by decide⟩⟩]

/-- A shader without any statements, which is the least there is to read. -/
theorem readShader_nothing :
    readShader "glsl" [0x00, 0x02, 0xFE, 0xFF, 0xFF, 0xFF, 0x00, 0x00] =
      { profile := "glsl", kind := .vertex, major := 2, minor := 0 } := by
  have hsplit : splitItems [endWord] = ([], .closed []) := by rw [splitItems, if_pos rfl]
  have hstatements : shaderStatements [0x00, 0x02, 0xFE, 0xFF, 0xFF, 0xFF, 0x00, 0x00] =
      (do
        let ss ← statements ⟨.vertex, 2, 0⟩ 1 (splitItems [endWord]).1
        checkEnding 2 (splitItems [endWord]).2
        return (⟨.vertex, 2, 0⟩, ss)) := rfl
  rw [hsplit] at hstatements
  rw [readShader, if_pos (by decide), hstatements]
  rfl

/-- The effect is read with one more byte behind it.  The name of its pass lies in the name of its
technique, and the failure of its second shader is told with that shader. -/
theorem readEffect_correct_nestedNameEffect :
    "glsl" ∈ Profile.supported ∧
      nestedNameEffect.IsIn (nestedNameEffect.bytes ++ [0xFF]) ∧
      readEffect "glsl" (nestedNameEffect.bytes ++ [0xFF]) =
        { profile := "glsl"
          techniques := [⟨"\x01Q", [⟨"Q", [0x92, 0x0F, 0x93]⟩]⟩]
          textures := [⟨"ab", 7⟩]
          shaders :=
            [⟨0, 0, { profile := "glsl", kind := .vertex, major := 2, minor := 0 }⟩,
             ⟨0, 0, .failed "glsl"
              [⟨none, 1, "Shader bytecode length 1 is not a multiple of 4"⟩]⟩] } := by
  have hprofile : "glsl" ∈ Profile.supported := by decide
  have hlaid : nestedNameEffect.IsIn (nestedNameEffect.bytes ++ [0xFF]) :=
    ⟨List.prefix_append _ _, by decide⟩
  obtain ⟨-, hread⟩ := readEffect_correct "glsl" hprofile (nestedNameEffect.bytes ++ [0xFF])
  refine ⟨hprofile, hlaid, ?_⟩
  have htechnique : nestedNameEffect.techniques.items.map (·.technique) =
    [⟨"\x01Q", [⟨"Q", [0x92, 0x0F, 0x93]⟩]⟩] := by decide
  have htexture : nestedNameEffect.textures.items.map (·.texture) = [⟨"ab", 7⟩] := by decide
  rw [hread nestedNameEffect hlaid, EffectLayout.reflection, htechnique, htexture,
    ← readShader_nothing]
  rfl

end Bytecode
end ShaderKit
