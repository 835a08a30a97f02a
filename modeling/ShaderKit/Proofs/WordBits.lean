import Mathlib.Data.Nat.Bitwise
import ShaderKit.Bytecode.Statement

/-!
# Numbers in the bits of a word

The fields of a word are read with shifts and masks.  Here they are numbers: `bits w low width` is
what `width` bits of `w` spell from bit `low` on.  A field that is cut out by a shift and a mask is
`bits` by `toNat_shiftRight_and`, and one that lies at the low end by `toNat_and`.

A register is three such numbers (`Register.ofWord_eq`), one of them in two pieces.

Words and bytes determine each other: `words?` gives words back for bytes if and only if the bytes
are those of the words (`words?_eq_some_iff`).
-/

set_option autoImplicit false

namespace ShaderKit
namespace Bytecode

/-- The number that `width` bits of a word spell, `low` being the lowest of them. -/
def bits (w : UInt32) (low width : Nat) : Nat := w.toNat / 2 ^ low % 2 ^ width

theorem bits_lt (w : UInt32) (low width : Nat) : bits w low width < 2 ^ width :=
  Nat.mod_lt _ (Nat.two_pow_pos width)

/-! ## Shifts and masks -/

section

variable (w : UInt32) {mask shift : UInt32} {low width : Nat}

theorem toNat_and (hmask : mask.toNat = 2 ^ width - 1) :
    (w &&& mask).toNat = bits w 0 width := by
  rw [UInt32.toNat_and, hmask, Nat.and_two_pow_sub_one_eq_mod, bits, Nat.pow_zero, Nat.div_one]

theorem toNat_shiftRight (hshift : shift.toNat = low) (hlow : low < 32) :
    (w >>> shift).toNat = w.toNat / 2 ^ low := by
  rw [UInt32.toNat_shiftRight, hshift, Nat.mod_eq_of_lt hlow, Nat.shiftRight_eq_div_pow]

theorem toNat_shiftRight_and (hshift : shift.toNat = low) (hlow : low < 32)
    (hmask : mask.toNat = 2 ^ width - 1) :
    ((w >>> shift) &&& mask).toNat = bits w low width := by
  rw [toNat_and (w >>> shift) hmask, bits, toNat_shiftRight w hshift hlow, Nat.pow_zero,
    Nat.div_one, bits]

/-- A mask of a single bit. -/
theorem and_eq_zero_iff (hmask : mask.toNat = 2 ^ low) : w &&& mask = 0 ↔ bits w low 1 = 0 := by
  have htoNat : (w &&& mask).toNat = bits w low 1 * 2 ^ low := by
    rw [UInt32.toNat_and, hmask, Nat.and_two_pow, Nat.testBit_eq_decide_div_mod_eq, bits]
    rcases Nat.mod_two_eq_zero_or_one (w.toNat / 2 ^ low) with h | h
    · simp [h]
    · simp [h]
  have hpos : 0 < 2 ^ low := Nat.two_pow_pos low
  rw [← UInt32.toNat_inj, htoNat, UInt32.toNat_zero, Nat.mul_eq_zero]
  constructor
  · rintro (h | h)
    · exact h
    · omega
  · exact Or.inl

end

/-! ## Registers -/

/-- Two bits in the middle of a number, left where they are. -/
theorem and_twentyFour (n : Nat) : n &&& 24 = 8 * (n / 8 % 4) := by
  refine Nat.eq_of_testBit_eq fun i => ?_
  have hmask : (24 : Nat) = 3 * 2 ^ 3 := rfl
  have hright : 8 * (n / 8 % 4) = (n / 2 ^ 3 &&& (2 ^ 2 - 1)) * 2 ^ 3 := by
    rw [Nat.and_two_pow_sub_one_eq_mod, Nat.mul_comm]
    rfl
  rw [hright, hmask, Nat.testBit_and, Nat.testBit_mul_two_pow, Nat.testBit_mul_two_pow,
    Nat.testBit_and, Nat.testBit_div_two_pow]
  by_cases h : 3 ≤ i
  · simp [h]
  · simp [h]

/-- The register that the bits of a word name.  Its file is a number in two pieces, the low one at
the high end of the word. -/
def Register.ofBits (w : UInt32) : Register where
  file := bits w 28 3 + 8 * bits w 11 2
  number := bits w 0 11
  relative := bits w 13 1 = 1

theorem Register.ofWord_eq (w : UInt32) : Register.ofWord w = Register.ofBits w := by
  have hlow : ((w >>> 28) &&& (0x7 : UInt32)).toNat = bits w 28 3 :=
    toNat_shiftRight_and w rfl (by decide) rfl
  have hhigh : ((w >>> 8) &&& (0x18 : UInt32)).toNat = 8 * bits w 11 2 := by
    have hshift : (w >>> 8).toNat = w.toNat / 2 ^ 8 := toNat_shiftRight w rfl (by decide)
    have hmask : (0x18 : UInt32).toNat = 24 := rfl
    rw [UInt32.toNat_and, hshift, hmask, and_twentyFour, Nat.div_div_eq_div_mul]
    rfl
  have hfile : (((w >>> 28) &&& (0x7 : UInt32)) ||| ((w >>> 8) &&& (0x18 : UInt32))).toNat =
      bits w 28 3 + 8 * bits w 11 2 := by
    have hdisjoint := Nat.two_pow_add_eq_or_of_lt (bits_lt w 28 3) (bits w 11 2)
    rw [UInt32.toNat_or, hlow, hhigh, Nat.or_comm, Nat.add_comm]
    exact hdisjoint.symm
  have hnumber : (w &&& 0x7FF).toNat = bits w 0 11 := toNat_and w rfl
  have hrelative : (w &&& 0x2000 ≠ 0) ↔ bits w 13 1 = 1 := by
    have hmask : (0x2000 : UInt32).toNat = 2 ^ 13 := rfl
    have hbit := bits_lt w 13 1
    rw [ne_eq, and_eq_zero_iff w hmask]
    omega
  rw [Register.ofWord, Register.ofBits, hfile, hnumber, decide_eq_decide.2 hrelative]

/-! ## Bytes of words -/

theorem bytesOfWord_wordOfBytes (a b c d : UInt8) :
    bytesOfWord (wordOfBytes a b c d) = [a, b, c, d] := by
  have hbyte {x y : UInt8} (h : ∀ i < 8, x.toBitVec.getLsbD i = y.toBitVec.getLsbD i) : x = y :=
    UInt8.eq_of_toBitVec_eq (BitVec.eq_of_getLsbD_eq h)
  have hoff {x : UInt8} {i : Nat} (hi : 8 ≤ i) : x.toBitVec.getLsbD i = false :=
    BitVec.getLsbD_of_ge _ _ hi
  have ha : (wordOfBytes a b c d).toUInt8 = a := hbyte fun i hi => by
    simp [wordOfBytes, hi]
  have hb : (wordOfBytes a b c d >>> 8).toUInt8 = b := hbyte fun i hi => by
    simp [wordOfBytes, hi, show 8 + i < 32 by omega, show 8 + i < 16 by omega,
      show 8 + i < 24 by omega]
  have hc : (wordOfBytes a b c d >>> 16).toUInt8 = c := hbyte fun i hi => by
    simp [wordOfBytes, hi, hoff (show 8 ≤ 16 + i by omega), show ¬ 16 + i < 16 by omega,
      show 16 + i < 32 by omega, show 16 + i < 24 by omega, show 16 + i - 8 = 8 + i by omega]
  have hd : (wordOfBytes a b c d >>> 24).toUInt8 = d := hbyte fun i hi => by
    simp [wordOfBytes, hi, hoff (show 8 ≤ 24 + i by omega), hoff (show 8 ≤ 16 + i by omega),
      show ¬ 24 + i < 24 by omega, show 24 + i < 32 by omega, show 24 + i - 8 = 16 + i by omega,
      show 24 + i - 16 = 8 + i by omega]
  rw [bytesOfWord, ha, hb, hc, hd]

theorem bytesOfWords_cons (w : UInt32) (ws : List UInt32) :
    bytesOfWords (w :: ws) = bytesOfWord w ++ bytesOfWords ws := rfl

theorem length_bytesOfWords (ws : List UInt32) : (bytesOfWords ws).length = 4 * ws.length := by
  induction ws with
  | nil => rfl
  | cons w ws ih =>
    have hword : (bytesOfWord w).length = 4 := rfl
    rw [bytesOfWords_cons, List.length_append, ih, hword, List.length_cons]
    omega

theorem take_bytesOfWords (ws : List UInt32) (n : Nat) :
    (bytesOfWords ws).take (4 * n) = bytesOfWords (ws.take n) := by
  have hfront : bytesOfWords ws = bytesOfWords (ws.take n) ++ bytesOfWords (ws.drop n) := by
    rw [bytesOfWords, bytesOfWords, bytesOfWords, ← List.flatMap_append, List.take_append_drop]
  rcases Nat.lt_or_ge n ws.length with hlt | hge
  · have hlength : (bytesOfWords (ws.take n)).length = 4 * n := by
      rw [length_bytesOfWords, List.length_take_of_le (Nat.le_of_lt hlt)]
    rw [hfront, ← hlength, List.take_left]
  · rw [List.take_of_length_le hge, List.take_of_length_le]
    rw [length_bytesOfWords]
    omega

theorem drop_bytesOfWords (ws : List UInt32) (n : Nat) :
    (bytesOfWords ws).drop (4 * n) = bytesOfWords (ws.drop n) := by
  have hsplit : bytesOfWords (ws.take n) ++ bytesOfWords (ws.drop n) = bytesOfWords ws := by
    rw [bytesOfWords, bytesOfWords, ← List.flatMap_append, List.take_append_drop, bytesOfWords]
  have hwhole := List.take_append_drop (4 * n) (bytesOfWords ws)
  rw [take_bytesOfWords, ← hsplit] at hwhole
  rw [← List.append_cancel_left hwhole, hsplit]

/-- **Bytes are words if they are the bytes of those words.** -/
theorem words?_eq_some_iff {bytes : List UInt8} {ws : List UInt32} :
    words? bytes = some ws ↔ bytes = bytesOfWords ws := by
  constructor
  · intro h
    induction bytes using words?.induct generalizing ws with
    | case1 =>
      rw [words?, Option.some.injEq] at h
      rw [← h]
      rfl
    | case2 a b c d bytes ih =>
      rw [words?, Option.map_eq_some_iff] at h
      obtain ⟨ws', hws, rfl⟩ := h
      rw [bytesOfWords_cons, bytesOfWord_wordOfBytes, ← ih hws]
      rfl
    | case3 bytes hnil hcons =>
      rw [words?] at h
      · cases h
      · exact hnil
      · exact hcons
  · rintro rfl
    exact words?_bytesOfWords ws

end Bytecode
end ShaderKit
