import Mathlib.Data.List.Infix
import ShaderKit.Proofs.EffectReading

/-!
# Effects that are cut off or go on

More bytes behind an effect change nothing: the effect is still laid out in the file.  So the
beginning of a file that is accepted is either refused, or read as the same effect; there is nothing
in between.

If all names are in the string block, then they are there as soon as the string block is, and of a
file that is cut off it can be said where the reader fails (`EffectLayout.failureAt`): at the start
of the field that the cut goes through.
-/

set_option autoImplicit false

namespace ShaderKit
namespace Bytecode

open Reader

section

variable {profile : String} {file : List UInt8}

/-! ## More bytes -/

theorem StoredName.IsIn.mono {n : StoredName} {more : List UInt8} (h : file <+: more)
    (hn : n.IsIn file) : n.IsIn more :=
  List.IsPrefix.trans hn (List.IsPrefix.drop h _)

theorem EffectLayout.IsIn.mono {e : EffectLayout} {more : List UInt8} (h : file <+: more)
    (he : e.IsIn file) : e.IsIn more where
  starts := he.starts.trans h
  names n hn := (he.names n hn).mono h

/-- A reflection without diagnostics stays as it is, whatever is appended to the file. -/
theorem readEffect_eq_of_accepted {more : List UInt8} (h : file <+: more)
    (haccepted : (readEffect profile file).diagnostics = []) :
    readEffect profile more = readEffect profile file := by
  obtain ⟨hprofile, e, he⟩ := exists_isIn_of_diagnostics_eq_nil haccepted
  rw [readEffect_of_isIn hprofile he, readEffect_of_isIn hprofile (he.mono h)]

/-- Nothing is read in part. -/
theorem diagnostics_eq_nil_or_readEffect_eq_failed (profile : String) (file : List UInt8) :
    (readEffect profile file).diagnostics = [] ∨
      ∃ d, readEffect profile file = .failed profile [d] := by
  by_cases hprofile : Profile.isSupported profile = true
  · cases hreflection : effectReflection profile file with
    | ok reflection =>
      obtain ⟨e, he, -⟩ := effectReflection_eq_ok_iff.1 hreflection
      rw [readEffect_of_isIn hprofile he]
      exact .inl rfl
    | error error =>
      rw [readEffect, if_pos hprofile, hreflection]
      exact .inr ⟨_, rfl⟩
  · rw [readEffect, if_neg hprofile]
    exact .inr ⟨_, rfl⟩

/-! ## Fewer bytes -/

namespace EffectLayout

variable {e : EffectLayout}

/-- All names are in the string block. -/
def NamesInside (e : EffectLayout) : Prop :=
  ∀ n ∈ e.names, n.offset.toNat + n.bytes.length ≤ e.strings.items.length

/-- What is wrong with a file that keeps `n` bytes of the effect. -/
def failureAt (e : EffectLayout) (n : Nat) : Diagnostic :=
  (EffectError.unexpectedEnd (4 + fieldStart e.fields (n - 4))).diagnostic

theorem failureAt_position_pos (e : EffectLayout) (n : Nat) : 1 ≤ (e.failureAt n).position :=
  Nat.le_min.2 ⟨Nat.le_add_left 1 _, by decide⟩

theorem failureAt_position_le (e : EffectLayout) {n : Nat} (h : 4 ≤ n) :
    (e.failureAt n).position ≤ n + 1 := by
  have hstart := fieldStart_le e.fields (n - 4)
  exact Nat.le_trans (Nat.min_le_left _ _) (by omega)

theorem failureAt_position_mono (e : EffectLayout) {n m : Nat} (h : n ≤ m) :
    (e.failureAt n).position ≤ (e.failureAt m).position := by
  have hstart := fieldStart_mono e.fields (Nat.sub_le_sub_right h 4)
  refine Nat.le_min.2 ⟨Nat.le_trans (Nat.min_le_left _ _) (by omega), Nat.min_le_right _ _⟩

/-- Names in the string block are kept with it. -/
theorem NamesInside.isIn_take (hinside : e.NamesInside) (he : e.IsIn file) {n : Nat}
    (hn : stringsStart + e.strings.items.length ≤ n) :
    ∀ name ∈ e.names, name.IsIn (file.take n) := by
  intro name hname
  have hlength := hinside name hname
  rw [StoredName.IsIn, List.drop_take]
  exact List.prefix_take_iff.2 ⟨he.names name hname, by omega⟩

theorem length_bytes (e : EffectLayout) :
    e.bytes.length = stringsStart + e.strings.items.length + e.parts.flatten.length := by
  simp only [bytes, fields, List.flatten_cons, List.length_append, ← Nat.add_assoc]
  rfl

/-- What follows an effect is not needed for it. -/
theorem IsIn.take (he : e.IsIn file) (hinside : e.NamesInside) {n : Nat} (hn : e.bytes.length ≤ n) :
    e.IsIn (file.take n) where
  starts := List.prefix_take_iff.2 ⟨he.starts, hn⟩
  names := by
    rw [length_bytes] at hn
    exact hinside.isIn_take he (by omega)

/-- What is kept of the fields, behind the mark. -/
theorem IsIn.drop_take (he : e.IsIn file) {n : Nat} (hn : n < e.bytes.length) :
    (file.take n).drop 4 = e.fields.flatten.take (n - 4) := by
  obtain ⟨rest, rfl⟩ := he.starts
  rw [List.take_append_of_le_length (Nat.le_of_lt hn), List.drop_take]
  rfl

/-- The reader fails at the start of the field that is cut. -/
theorem IsIn.readBundle_take (he : e.IsIn file) (hinside : e.NamesInside) {n : Nat} (h4 : 4 ≤ n)
    (hn : n < e.bytes.length) :
    readBundle profile (file.take n) ⟨4, (file.take n).drop 4⟩ =
      .error (.unexpectedEnd (4 + fieldStart e.fields (n - 4))) := by
  rw [he.drop_take hn]
  rcases Nat.lt_or_ge n (stringsStart + e.strings.items.length) with hstrings | hstrings
  -- the cut is before the end of the string block, and no name is looked for
  · have hsplit : e.fields = [bytesOfWord e.strings.count, e.strings.items] ++ e.parts := rfl
    have hlength : n - 4 < [bytesOfWord e.strings.count, e.strings.items].flatten.length := by
      rw [List.flatten_cons, List.flatten_singleton, List.length_append]
      change n - 4 < 4 + e.strings.items.length
      rw [stringsStart] at hstrings
      omega
    rw [hsplit, fieldStart_append_of_lt hlength, List.flatten_append,
      List.take_append_of_le_length (Nat.le_of_lt hlength)]
    exact bind_of_error ((reads_strings e.strings).take 4 hlength)
  · refine (reads_bundle profile (hinside.isIn_take he hstrings)).take 4 ?_
    rw [bytes, List.length_append] at hn
    change n < 4 + e.fields.flatten.length at hn
    omega

theorem IsIn.readEffect_take (he : e.IsIn file) (hinside : e.NamesInside)
    (hprofile : Profile.isSupported profile = true) {n : Nat} (h4 : 4 ≤ n)
    (hn : n < e.bytes.length) :
    readEffect profile (file.take n) = .failed profile [e.failureAt n] := by
  have hmark : isEffect (file.take n) = true := by
    obtain ⟨rest, hfile⟩ := he.exists_rest
    refine isEffect_iff.2 (List.prefix_take_iff.2 ⟨⟨_, hfile.symm⟩, h4⟩)
  have hreflection : effectReflection profile (file.take n) =
      .error (.unexpectedEnd (4 + fieldStart e.fields (n - 4))) := by
    rw [effectReflection, hmark, he.readBundle_take hinside h4 hn]
    rfl
  rw [readEffect, if_pos hprofile, hreflection, failureAt]

end EffectLayout

end

/-- **An effect is not read in part, and what follows it is not read.**  Whatever is appended to a
file that is accepted, the same is read.  A file that is cut off is read as the same effect, or it
is refused with one diagnostic and nothing else.  And if all names are in the string block, then a
file that keeps the mark is refused exactly if a byte of the effect is missing: the reader fails at
the start of the field that is cut.  This is a byte that is kept or the one right behind them, and
never one further ahead if fewer bytes are kept. -/
theorem readEffect_take_append (profile : String) (file : List UInt8)
    (haccepted : (readEffect profile file).diagnostics = []) :
    (∀ more, readEffect profile (file ++ more) = readEffect profile file) ∧
      (∀ n, readEffect profile (file.take n) = readEffect profile file ∨
        ∃ d, readEffect profile (file.take n) = .failed profile [d]) ∧
      (∃ e : EffectLayout, e.IsIn file) ∧
      ∀ e : EffectLayout, e.IsIn file → e.NamesInside →
        (∀ n, e.bytes.length ≤ n → readEffect profile (file.take n) = readEffect profile file) ∧
        (∀ n, 4 ≤ n → n < e.bytes.length →
          readEffect profile (file.take n) = .failed profile [e.failureAt n] ∧
            (e.failureAt n).file = none ∧ (e.failureAt n).message = "Unexpected EOF" ∧
            1 ≤ (e.failureAt n).position ∧ (e.failureAt n).position ≤ n + 1) ∧
        ∀ n m, n ≤ m → (e.failureAt n).position ≤ (e.failureAt m).position := by
  obtain ⟨hprofile, e₀, he₀⟩ := exists_isIn_of_diagnostics_eq_nil haccepted
  refine ⟨fun more => readEffect_eq_of_accepted (List.prefix_append file more) haccepted,
    fun n => ?_, ⟨e₀, he₀⟩,
    fun e he hinside => ⟨fun n hn => ?_, fun n h4 hn => ?_, fun n m h => ?_⟩⟩
  · rcases diagnostics_eq_nil_or_readEffect_eq_failed profile (file.take n) with hnil | hfailed
    · exact .inl (readEffect_eq_of_accepted (List.take_prefix n file) hnil).symm
    · exact .inr hfailed
  · rw [readEffect_of_isIn hprofile he, readEffect_of_isIn hprofile (he.take hinside hn)]
  · exact ⟨he.readEffect_take hinside hprofile h4 hn, rfl, rfl, e.failureAt_position_pos n,
      e.failureAt_position_le h4⟩
  · exact e.failureAt_position_mono h

/-- The cut is in the number of parameters, behind the string block of 9 bytes. -/
theorem readEffect_take_append_nestedNameEffect :
    (readEffect "glsl" nestedNameEffect.bytes).diagnostics = [] ∧
      readEffect "glsl" (nestedNameEffect.bytes ++ [0xFF]) =
        readEffect "glsl" nestedNameEffect.bytes ∧
      readEffect "glsl" (nestedNameEffect.bytes.take 20) =
        .failed "glsl" [⟨none, 18, "Unexpected EOF"⟩] := by
  have hlaid : nestedNameEffect.IsIn nestedNameEffect.bytes := ⟨List.prefix_rfl, by decide⟩
  have hinside : nestedNameEffect.NamesInside := by
    rw [EffectLayout.NamesInside]
    decide
  have haccepted : (readEffect "glsl" nestedNameEffect.bytes).diagnostics = [] := by
    rw [readEffect_of_isIn (by decide) hlaid]
    rfl
  obtain ⟨happend, -, -, hlayout⟩ :=
    readEffect_take_append "glsl" nestedNameEffect.bytes haccepted
  obtain ⟨-, htake, -⟩ := hlayout nestedNameEffect hlaid hinside
  obtain ⟨hfailed, -⟩ := htake 20 (by decide) (by decide +kernel)
  have hfailure : nestedNameEffect.failureAt 20 = ⟨none, 18, "Unexpected EOF"⟩ := by decide
  rw [hfailure] at hfailed
  exact ⟨haccepted, happend [0xFF], hfailed⟩

end Bytecode
end ShaderKit
