/-!
# UTF-8, decoded without refusal

Files are bytes and texts are characters.  `Utf8.encode` writes a text; `Utf8.decode` reads any
bytes at all: whatever is not UTF-8 becomes U+FFFD, one for each *maximal subpart*, that is, for
each longest run of bytes that begins some well-formed character but does not complete it, and for
each byte that begins none.

Decoding is a machine that takes one byte at a time (`Utf8.step`).  Between characters it holds
nothing; inside one it holds the bits read so far, how many bytes are still owed, and the range
the next byte has to lie in.  The range is what keeps overlong forms, surrogates and numbers above
U+10FFFF out: only the second byte is ever restricted beyond `80..BF`, and only after `E0`, `ED`,
`F0` and `F4`.  A byte out of range ends the subpart and is then read again from between
characters.
-/

set_option autoImplicit false

namespace ShaderKit
namespace Utf8

/-- An unfinished character: the bits read so far, the number of bytes owed after the next one,
and the least and the greatest byte that may come next.  No ASCII byte continues a character. -/
structure Pending where
  bits : Nat
  more : Nat
  low : UInt8
  high : UInt8
  ascii_lt_low : 0x80 ≤ low := by decide
  deriving DecidableEq, Repr

/-- What a byte does between characters. -/
inductive Lead where
  /-- It is a character. -/
  | char (c : Char)
  /-- It begins one. -/
  | opens (p : Pending)
  /-- It begins none. -/
  | invalid

/-- The role of a byte that stands first. -/
def lead (b : UInt8) : Lead :=
  if b < 0x80 then .char (Char.ofNat b.toNat)
  else if b < 0xC2 then .invalid
  else if b < 0xE0 then .opens ⟨b.toNat % 32, 0, 0x80, 0xBF, by decide⟩
  else if b < 0xF0 then
    .opens ⟨b.toNat % 16, 1, if b = 0xE0 then 0xA0 else 0x80, if b = 0xED then 0x9F else 0xBF,
      by split <;> decide⟩
  else if b < 0xF5 then
    .opens ⟨b.toNat % 8, 2, if b = 0xF0 then 0x90 else 0x80, if b = 0xF4 then 0x8F else 0xBF,
      by split <;> decide⟩
  else .invalid

/-- The character that stands for what is not UTF-8. -/
def replacement : Char := '\uFFFD'

/-- What a byte between characters puts out, and the state after it. -/
def stepFresh (b : UInt8) : List Char × Option Pending :=
  match lead b with
  | .char c => ([c], none)
  | .opens p => ([], some p)
  | .invalid => ([replacement], none)

/-- What a byte puts out, and the state after it. -/
def step : Option Pending → UInt8 → List Char × Option Pending
  | none, b => stepFresh b
  | some p, b =>
    if p.low ≤ b ∧ b ≤ p.high then
      let bits := p.bits * 64 + b.toNat % 64
      match p.more with
      | 0 => ([Char.ofNat bits], none)
      | more + 1 => ([], some ⟨bits, more, 0x80, 0xBF, by decide⟩)
    else
      let (out, next) := stepFresh b
      (replacement :: out, next)

/-- Everything put out from a state on; a character the end cuts off is replaced too. -/
def decodeFrom : Option Pending → List UInt8 → List Char
  | none, [] => []
  | some _, [] => [replacement]
  | state, b :: bytes =>
    let (out, next) := step state b
    out ++ decodeFrom next bytes

/-- The text of any bytes, with U+FFFD for whatever is not UTF-8. -/
def decode (bytes : List UInt8) : List Char := decodeFrom none bytes

/-- The bytes of a text. -/
def encode (text : List Char) : List UInt8 := text.flatMap String.utf8EncodeChar

theorem encode_append (text more : List Char) :
    encode (text ++ more) = encode text ++ encode more :=
  List.flatMap_append

/-- An ASCII byte is its own character from every state, and leaves the machine between
characters. -/
theorem step_ascii (state : Option Pending) {b : UInt8} (h : b < 0x80) :
    step state b =
      ((if state.isSome then [replacement] else []) ++ [Char.ofNat b.toNat], none) := by
  have fresh : stepFresh b = ([Char.ofNat b.toNat], none) := by simp [stepFresh, lead, h]
  cases state with
  | none => simpa [step] using fresh
  | some p =>
    have out : ¬ (p.low ≤ b ∧ b ≤ p.high) := fun hb =>
      absurd (UInt8.lt_of_lt_of_le h (UInt8.le_trans p.ascii_lt_low hb.1)) (UInt8.lt_irrefl b)
    simp [step, out, fresh]

end Utf8
end ShaderKit
