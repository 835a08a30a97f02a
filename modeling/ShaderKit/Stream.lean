import ShaderKit.FileSystem.Tree
import ShaderKit.Text.Utf8

/-!
# Output streams

A stream takes bytes in order.  It may have a capacity: then it takes as many bytes as fit, from
however many writes, and the first write that does not fit is taken in part and fails.  Writing
nothing always succeeds.

Since a stream does not tell writes apart, writing two things one after the other is writing them
together; this is why a caller may collect its lines first.
-/

set_option autoImplicit false

namespace ShaderKit

/-- An output stream: what was written, and how much it takes in all. -/
structure Stream where
  written : List UInt8 := []
  capacity : Option Nat := none
  deriving DecidableEq, Repr

namespace Stream

/-- The part of some bytes that a stream still takes. -/
def fitting (s : Stream) (data : List UInt8) : List UInt8 :=
  match s.capacity with
  | none => data
  | some capacity => data.take (capacity - s.written.length)

/-- Writes bytes. -/
def write (s : Stream) (data : List UInt8) : Except SystemError Unit × Stream :=
  let taken := s.fitting data
  (if taken.length = data.length then .ok () else .error .streamClosed,
    { s with written := s.written ++ taken })

/-- The bytes of lines, each with a line end. -/
def bytesOfLines (lines : List String) : List UInt8 :=
  lines.flatMap fun line => Utf8.encode (line.toList ++ ['\n'])

/-- Writes lines. -/
def writeLines (s : Stream) (lines : List String) : Except SystemError Unit × Stream :=
  s.write (bytesOfLines lines)

/-! ## Laws -/

/-- Writing nothing always succeeds. -/
theorem write_nil (s : Stream) : s.write [] = (.ok (), s) := by
  obtain ⟨written, capacity⟩ := s
  cases capacity <;> simp [write, fitting]

/-- What has been written when a write succeeds. -/
theorem eq_of_write_eq_ok {s s' : Stream} {data : List UInt8} (h : s.write data = (.ok (), s')) :
    s' = { s with written := s.written ++ data } := by
  obtain ⟨written, capacity⟩ := s
  cases capacity with
  | none =>
    simp only [write, fitting, Prod.mk.injEq] at h
    exact h.2.symm
  | some capacity =>
    simp only [write, fitting, List.length_take, Prod.mk.injEq] at h
    obtain ⟨hresult, rfl⟩ := h
    split at hresult
    · next hlength => rw [List.take_of_length_le (by omega)]
    · cases hresult

/-- A stream does not tell writes apart. -/
theorem write_append (s : Stream) (data more : List UInt8) :
    s.write (data ++ more) =
      match s.write data with
      | (.ok (), s') => s'.write more
      | (.error e, s') => (.error e, s') := by
  obtain ⟨written, capacity⟩ := s
  cases capacity with
  | none => simp [write, fitting]
  | some capacity =>
    rcases Nat.lt_or_ge (capacity - written.length) data.length with hroom | hroom
    · have hdata : (data.take (capacity - written.length)).length ≠ data.length := by
        rw [List.length_take]
        omega
      have hboth : (data.take (capacity - written.length)).length ≠ (data ++ more).length := by
        rw [List.length_take, List.length_append]
        omega
      have hfirst : write ⟨written, some capacity⟩ data = (.error .streamClosed,
          ⟨written ++ data.take (capacity - written.length), some capacity⟩) :=
        Prod.ext (if_neg hdata) rfl
      simp only [hfirst]
      simp only [write, fitting, List.take_append_of_le_length (Nat.le_of_lt hroom), if_neg hboth]
    · have hrest : capacity - written.length - data.length =
          capacity - (written ++ data).length := by
        rw [List.length_append, Nat.sub_sub]
      simp only [write, fitting, List.take_append, List.take_of_length_le hroom, hrest, if_pos,
        List.length_append, Nat.add_left_cancel_iff, List.append_assoc]

theorem writeLines_append (s : Stream) (lines more : List String) :
    s.writeLines (lines ++ more) =
      match s.writeLines lines with
      | (.ok (), s') => s'.writeLines more
      | (.error e, s') => (.error e, s') := by
  rw [writeLines, bytesOfLines, List.flatMap_append, write_append]
  rfl

end Stream
end ShaderKit
