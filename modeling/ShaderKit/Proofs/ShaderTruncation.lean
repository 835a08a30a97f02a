import ShaderKit.Proofs.ShaderReading

/-!
# Shaders that are cut off

A shader that ends with its end word cannot be read without its last bytes.  Whatever is kept of it
is refused with one diagnostic, and the place of that is the word that the cut goes through or
stands in front of.

What is wrong depends on where the cut is.  It goes through a word; or it stands where an item or
the end word would start (`TokenStream.StartsAt`), and then the items before it are complete and
only the end is missing; or it stands inside an item (`TokenStream.IsInside`), and then the reader
has no use for the rest of that item.  Of all items that are kept as a whole, none can be at fault:
they have been accepted before.
-/

set_option autoImplicit false

namespace ShaderKit
namespace Bytecode

/-! ## Rows of items without an end -/

theorem splitOff?_eq_none {α : Type} {n : Nat} {l : List α} (h : l.length < n) :
    splitOff? n l = none := by
  cases hsplit : splitOff? n l with
  | none => rfl
  | some p =>
    obtain ⟨rfl, hlength⟩ := splitOff?_eq_some_iff.1 hsplit
    rw [List.length_append] at h
    omega

theorem splitItems_missingEnd {items : List Item} (hshaped : ∀ i ∈ items, i.IsShaped) :
    splitItems (wordsOfItems items) = (items, .missingEnd) := by
  have hrow := splitItems_append hshaped []
  rwa [List.append_nil, splitItems, List.append_nil] at hrow

/-- A row of items that breaks off behind the first word of an item. -/
theorem splitItems_cutShort {items : List Item} {i : Item} (hshaped : ∀ i ∈ items, i.IsShaped)
    (hi : i.IsShaped) {words : List UInt32} (hwords : words.length < i.payload.length) :
    splitItems (wordsOfItems items ++ i.token :: words) = (items, .cutShort i.token words) := by
  have hnone : splitOff? (payloadSize i.token) words = none :=
    splitOff?_eq_none (by rwa [payloadSize_eq, ← hi.length])
  have hcut : splitItems (i.token :: words) = ([], .cutShort i.token words) := by
    have hend : i.token ≠ endWord := hi.notEnd
    rw [splitItems, if_neg hend]
    split
    · rfl
    · rename_i hsome
      rw [hnone] at hsome
      cases hsome
  rw [splitItems_append hshaped, hcut, List.append_nil]

theorem wordsOfItems_append (front back : List Item) :
    wordsOfItems (front ++ back) = wordsOfItems front ++ wordsOfItems back := List.flatMap_append

/-- A place in a row of items is between two items, or inside one. -/
theorem exists_split_items (items : List Item) {n : Nat} (hn : n ≤ (wordsOfItems items).length) :
    (∃ front back, items = front ++ back ∧ n = (wordsOfItems front).length) ∨
      ∃ front i back, items = front ++ i :: back ∧ (wordsOfItems front).length < n ∧
        n < (wordsOfItems front).length + i.size := by
  induction items generalizing n with
  | nil => exact .inl ⟨[], [], rfl, Nat.le_zero.1 hn⟩
  | cons i items ih =>
    have hlength (front : List Item) :
        (wordsOfItems (i :: front)).length = i.size + (wordsOfItems front).length := by
      rw [wordsOfItems_cons, List.length_cons, List.length_append, Item.size]
      omega
    rcases Nat.eq_zero_or_pos n with rfl | hpos
    · exact .inl ⟨[], i :: items, rfl, rfl⟩
    rcases Nat.lt_or_ge n i.size with hinside | hbehind
    · exact .inr ⟨[], i, items, rfl, hpos, by rwa [wordsOfItems, List.flatMap_nil, List.length_nil,
        Nat.zero_add]⟩
    · obtain ⟨m, rfl⟩ := Nat.exists_eq_add_of_le hbehind
      rw [hlength] at hn
      rcases ih (Nat.le_of_add_le_add_left hn) with ⟨front, back, rfl, rfl⟩ |
        ⟨front, j, back, rfl, hlow, hhigh⟩
      · exact .inl ⟨i :: front, back, rfl, (hlength front).symm⟩
      · refine .inr ⟨i :: front, j, back, rfl, ?_, ?_⟩
        · rw [hlength]
          omega
        · rw [hlength]
          omega

/-! ## Bytes that are cut off -/

theorem shaderStatements_of_misaligned {bytes : List UInt8} (h : bytes.length % 4 ≠ 0) :
    shaderStatements bytes = .error ⟨bytes.length / 4, .misaligned bytes.length⟩ := by
  have hwords : words? bytes = none := by
    cases hwords : words? bytes with
    | none => rfl
    | some ws =>
      rw [words?_eq_some_iff.1 hwords, length_bytesOfWords] at h
      omega
  have hnil : bytes.isEmpty = false := by
    cases bytes with
    | nil => exact absurd rfl h
    | cons b bytes => rfl
  have hrefused : shaderWords bytes = .error ⟨bytes.length / 4, .misaligned bytes.length⟩ := by
    rw [shaderWords, hnil, if_neg Bool.false_ne_true, hwords]
  simp only [shaderStatements, hrefused, bind, Except.bind]

theorem version_word {v : Version} (hv : v.IsSupported) : version v.word = .ok v :=
  version_eq_ok_iff.2 ⟨hv, rfl⟩

/-- If the items are in order, then what is wrong is how they end. -/
theorem shaderStatements_of_checkEnding {bytes : List UInt8} {v : Version} {token : UInt32}
    {words : List UInt32} {items : List Item} {ending : Ending} {e : LocatedError}
    (hwords : bytes = bytesOfWords (token :: words)) (hversion : version token = .ok v)
    (hsplit : splitItems words = (items, ending)) (hvalid : ∀ i ∈ items, i.IsValid v)
    (hending : checkEnding (words.length + 1) ending = .error e) :
    shaderStatements bytes = .error e := by
  have hstatements : statements v 1 items = .ok (items.map (Item.said v)) :=
    statements_eq_ok_iff.2 ⟨hvalid, rfl⟩
  simp only [shaderStatements, shaderWords_eq_ok_iff.2 hwords, hversion, hsplit, hstatements,
    hending, bind, Except.bind]

/-- What is read from a shader that is refused at its `n`th word, counted from one.  A greater
position than fits a word cannot be told. -/
def refusedAt (profile : String) (n : Nat) (message : String) : ShaderReflection :=
  .failed profile [⟨none, min n Diagnostic.lastPosition, message⟩]

theorem readShader_of_error {profile : String} (hprofile : Profile.isSupported profile = true)
    {bytes : List UInt8} {n : Nat} {e : ShaderError} (h : shaderStatements bytes = .error ⟨n, e⟩) :
    readShader profile bytes = refusedAt profile (n + 1) e.message := by
  rw [readShader, if_pos hprofile, h]
  rfl

/-! ## Cuts between words -/

namespace TokenStream

variable {s : TokenStream}

/-- An item or the end word starts behind `j` words of the shader. -/
def StartsAt (s : TokenStream) (j : Nat) : Prop :=
  ∃ front back, s.items = front ++ back ∧ j = 1 + (wordsOfItems front).length

/-- The first `j` words of the shader hold a part of an item, but not all of it. -/
def IsInside (s : TokenStream) (j : Nat) : Prop :=
  ∃ front i back, s.items = front ++ i :: back ∧ 1 + (wordsOfItems front).length < j ∧
    j < 1 + (wordsOfItems front).length + i.size

theorem take_words (hlast : s.after = []) {n : Nat} (hn : n + 1 < s.words.length) :
    n ≤ (wordsOfItems s.items).length ∧
      s.words.take (n + 1) = s.version.word :: (wordsOfItems s.items).take n := by
  have hlength : n ≤ (wordsOfItems s.items).length := by
    rw [words, hlast, List.length_cons, List.length_append, List.length_singleton] at hn
    omega
  exact ⟨hlength, by rw [words, List.take_succ_cons, List.take_append_of_le_length hlength]⟩

/-- Every place between two words but the first is of one of the two kinds. -/
theorem startsAt_or_isInside (hlast : s.after = []) {j : Nat} (hj : 1 ≤ j)
    (hlt : j < s.words.length) : s.StartsAt j ∨ s.IsInside j := by
  obtain ⟨n, rfl⟩ := Nat.exists_eq_add_of_le' hj
  rcases exists_split_items s.items (take_words hlast hlt).1 with ⟨front, back, hitems, hn⟩ |
    ⟨front, i, back, hitems, hlow, hhigh⟩
  · exact .inl ⟨front, back, hitems, by omega⟩
  · exact .inr ⟨front, i, back, hitems, by omega, by omega⟩

theorem shaderStatements_take_of_startsAt (hlast : s.after = []) {j : Nat}
    (hlt : j < s.words.length) (hstart : s.StartsAt j) :
    shaderStatements (bytesOfWords (s.words.take j)) = .error ⟨j, .missingEnd⟩ := by
  obtain ⟨front, back, hitems, rfl⟩ := hstart
  rw [Nat.add_comm] at hlt ⊢
  have hkept : (wordsOfItems s.items).take (wordsOfItems front).length = wordsOfItems front := by
    rw [hitems, wordsOfItems_append, List.take_left]
  have hfront : ∀ i ∈ front, i ∈ s.items := by
    rw [hitems]
    exact fun i hi => List.mem_append_left _ hi
  rw [(take_words hlast hlt).2, hkept]
  exact shaderStatements_of_checkEnding rfl (version_word s.supported)
    (splitItems_missingEnd fun i hi => s.shaped i (hfront i hi))
    (fun i hi => s.valid i (hfront i hi)) rfl

theorem shaderStatements_take_of_isInside (hlast : s.after = []) {j : Nat}
    (hlt : j < s.words.length) (hinside : s.IsInside j) :
    shaderStatements (bytesOfWords (s.words.take j)) = .error ⟨j, .unexpectedEnd⟩ := by
  obtain ⟨front, i, back, hitems, hlow, hhigh⟩ := hinside
  obtain ⟨n, rfl⟩ : ∃ n, j = (wordsOfItems front).length + (n + 1) + 1 :=
    ⟨j - (wordsOfItems front).length - 2, by omega⟩
  rw [Item.size] at hhigh
  have hn : (i.payload.take n).length < i.payload.length := by
    rw [List.length_take]
    omega
  have hkept : (wordsOfItems s.items).take ((wordsOfItems front).length + (n + 1)) =
      wordsOfItems front ++ i.token :: i.payload.take n := by
    rw [hitems, wordsOfItems_append, List.take_length_add_append, wordsOfItems_cons,
      List.take_succ_cons, List.take_append_of_le_length (by omega)]
  have hi : i ∈ s.items := by
    rw [hitems]
    exact List.mem_append_right _ List.mem_cons_self
  have hfront : ∀ i ∈ front, i ∈ s.items := by
    rw [hitems]
    exact fun i hi => List.mem_append_left _ hi
  rw [(take_words hlast hlt).2, hkept]
  refine shaderStatements_of_checkEnding rfl (version_word s.supported)
    (splitItems_cutShort (fun i hi => s.shaped i (hfront i hi)) (s.shaped i hi) hn)
    (fun i hi => s.valid i (hfront i hi)) ?_
  have hlength : (wordsOfItems front ++ i.token :: i.payload.take n).length =
      (wordsOfItems front).length + (n + 1) := by
    rw [List.length_append, List.length_cons, List.length_take_of_le (by omega)]
  rw [hlength]
  rfl

end TokenStream

/-- **A shader that is cut off is refused at the cut.**  If a shader is accepted whose end word is
its last word, then its first `k` bytes, fewer than all, are refused with one diagnostic: for no
bytes that there are none; for bytes that are no words, that they are not, at the word that the cut
goes through; and for `j` words, at the next word, that the end is missing if an item or the end
word starts there, and else, since the cut is inside an item, that the shader ends too early. -/
theorem readShader_take (profile : String) (bytes : List UInt8)
    (haccepted : (readShader profile bytes).diagnostics = []) :
    (∃ s : TokenStream, s.bytes = bytes) ∧
      ∀ s : TokenStream, s.bytes = bytes → s.after = [] →
        bytes.length = 4 * s.words.length ∧
        readShader profile (bytes.take 0) = refusedAt profile 1 "Shader bytecode is empty" ∧
        (∀ k < bytes.length, k % 4 ≠ 0 →
          readShader profile (bytes.take k) =
            refusedAt profile (k / 4 + 1) s!"Shader bytecode length {k} is not a multiple of 4") ∧
        ∀ j, 1 ≤ j → j < s.words.length →
          (s.StartsAt j → readShader profile (bytes.take (4 * j)) =
            refusedAt profile (j + 1) "Missing END token") ∧
          (s.IsInside j → readShader profile (bytes.take (4 * j)) =
            refusedAt profile (j + 1) "Unexpected EOF") ∧
          (s.StartsAt j ∨ s.IsInside j) := by
  obtain ⟨hprofile, hstream⟩ := exists_stream_of_diagnostics_eq_nil haccepted
  refine ⟨hstream, ?_⟩
  rintro s rfl hlast
  refine ⟨length_bytesOfWords s.words, ?_, fun k hk hmisaligned => ?_, fun j hj hlt => ?_⟩
  · exact readShader_of_error hprofile (rfl : shaderStatements [] = .error ⟨0, .empty⟩)
  · have hlength : (s.bytes.take k).length = k := List.length_take_of_le (Nat.le_of_lt hk)
    have herror : shaderStatements (s.bytes.take k) = _ :=
      shaderStatements_of_misaligned (by rwa [hlength])
    rw [hlength] at herror
    exact readShader_of_error hprofile herror
  · rw [TokenStream.bytes, take_bytesOfWords]
    exact ⟨fun hstart => readShader_of_error hprofile
        (TokenStream.shaderStatements_take_of_startsAt hlast hlt hstart),
      fun hinside => readShader_of_error hprofile
        (TokenStream.shaderStatements_take_of_isInside hlast hlt hinside),
      TokenStream.startsAt_or_isInside hlast hj hlt⟩

/-- A vertex shader with a comment, and a definition of five words behind it. -/
def commentedStream : TokenStream where
  version := ⟨.vertex, 3, 0⟩
  items :=
    [⟨0x0002FFFE, [0x6C6C6568, 0x0000006F]⟩,
     ⟨0x05000051, [0xA0000000, 0x3F800000, 0, 0, 0]⟩]
  after := []
  supported := ⟨.inl rfl, by decide⟩
  shaped := by decide
  valid := by decide

theorem readShader_take_commentedStream :
    (readShader "glsl" commentedStream.bytes).diagnostics = [] ∧
      readShader "glsl" (commentedStream.bytes.take 12) =
        .failed "glsl" [⟨none, 4, "Unexpected EOF"⟩] ∧
      readShader "glsl" (commentedStream.bytes.take 16) =
        .failed "glsl" [⟨none, 5, "Missing END token"⟩] ∧
      readShader "glsl" (commentedStream.bytes.take 30) =
        .failed "glsl" [⟨none, 8, "Shader bytecode length 30 is not a multiple of 4"⟩] := by
  have haccepted : (readShader "glsl" commentedStream.bytes).diagnostics = [] := by
    rw [readShader_bytes (by decide)]
    rfl
  obtain ⟨-, hcut⟩ := readShader_take "glsl" commentedStream.bytes haccepted
  obtain ⟨-, -, hmisaligned, hwords⟩ := hcut commentedStream rfl rfl
  have hinside : commentedStream.IsInside 3 := ⟨[], _, _, rfl, by decide, by decide⟩
  have hstart : commentedStream.StartsAt 4 := ⟨commentedStream.items.take 1, _, rfl, rfl⟩
  exact ⟨haccepted, (hwords 3 (by decide) (by decide)).2.1 hinside,
    (hwords 4 (by decide) (by decide)).1 hstart, hmisaligned 30 (by decide) (by decide)⟩

end Bytecode
end ShaderKit
