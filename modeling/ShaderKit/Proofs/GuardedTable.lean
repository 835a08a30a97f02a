import ShaderKit.Proofs.GuardedReading
import ShaderKit.Proofs.TableReading

/-!
# Constant tables under guard

A guarded reader of constant tables (`Guarded.parseTable`).  It asks for a part of a table once, by
its offset and its size, and takes the numbers in it without asking again; strings are cut at the
zero byte that was found.  All offsets come from the table, and the entries are multiplied out from
one of them.

It is never trapped (`yields_parseTable`): what is taken without asking was asked for before, and
the offsets are too small for their sums to get out of their words.
-/

set_option autoImplicit false

namespace ShaderKit
namespace Bytecode
namespace Guarded

open ConstantTable (entrySize headerSize)

/-! ## The reader -/

/-- The bytes of a part of a table. -/
def part (bytes : List UInt8) (what : TablePart) (offset size : Nat) :
    Guarded TableError (List UInt8) :=
  match slice? bytes offset (saturatingAdd offset size) with
  | some found => pure found
  | none => throw (.truncated what offset (saturatingAdd offset size) bytes.length)

/-- The word at an offset of a part that is there. -/
def wordFrom (bytes : List UInt8) (offset : Nat) : Guarded TableError UInt32 := do
  wordOf (← slice bytes offset (saturatingAdd offset 4))

/-- The half word at an offset of a part that is there. -/
def halfWordFrom (bytes : List UInt8) (offset : Nat) : Guarded TableError Nat := do
  halfWordOf (← slice bytes offset (saturatingAdd offset 2))

/-- The string at an offset. -/
def text (bytes : List UInt8) (what : TablePart) (offset : Nat) : Guarded TableError String :=
  match slice? bytes offset bytes.length with
  | none => throw (.truncated what offset offset bytes.length)
  | some tail =>
    match tail.findIdx? (· = 0) with
    | none => throw (.unterminatedString offset)
    | some stop => do return String.ofList (Utf8.decode (← slice tail 0 stop))

/-- The string at an offset, where zero means that there is none. -/
def text? (bytes : List UInt8) (what : TablePart) (offset : Nat) :
    Guarded TableError (Option String) :=
  if offset = 0 then pure none else do return some (← text bytes what offset)

/-- The constant whose entry begins at an offset. -/
def entry (bytes : List UInt8) (offset : Nat) : Guarded TableError TableEntry := do
  let _ ← part bytes .entry offset entrySize
  let nameOffset ← wordFrom bytes offset
  let number ← halfWordFrom bytes (← addSize offset 4)
  let registerIndex ← halfWordFrom bytes (← addSize offset 6)
  let registerCount ← halfWordFrom bytes (← addSize offset 8)
  let name ← text bytes .name nameOffset.toNat
  match RegisterSet.ofNumber? number with
  | none => throw (.unknownRegisterSet name number)
  | some registerSet => return { name, registerSet, registerIndex, registerCount }

/-- The constants of the entries from number `i` on, the first of all being at `info`. -/
def entries (bytes : List UInt8) (info i : Nat) :
    (count : Nat) → Guarded TableError (List TableEntry)
  | 0 => pure []
  | count + 1 => do
    let first ← entry bytes (saturatingAdd info (saturatingMul i entrySize))
    return first :: (← entries bytes info (i + 1) count)

/-- Reads a table. -/
def parseTable (bytes : List UInt8) : Guarded TableError ConstantTable := do
  let _ ← part bytes .header 0 headerSize
  let creatorOffset ← wordFrom bytes 4
  let count ← wordFrom bytes 12
  let info ← wordFrom bytes 16
  let targetOffset ← wordFrom bytes 24
  let constants ← entries bytes info.toNat 0 count.toNat
  let creator ← text? bytes .creator creatorOffset.toNat
  let target ← text? bytes .target targetOffset.toNat
  return { creator, target, constants }

/-! ## It is not trapped -/

section

variable {bytes : List UInt8} {what : TablePart} {offset size : Nat}

/-- A part is asked for; the rest may rely on it. -/
theorem yields_part_bind {α : Type} {f : List UInt8 → Guarded TableError α}
    {g : Unit → Except TableError α} (hsize : offset + size < sizeLimit)
    (hf : offset + size ≤ bytes.length → ∀ found, Yields (f found) (g ())) :
    Yields (part bytes what offset size >>= f)
      (ConstantTable.require bytes what offset size >>= g) := by
  rw [part, saturatingAdd_of_lt hsize, ConstantTable.require]
  by_cases h : offset + size ≤ bytes.length
  · rw [slice?_of_le (Nat.le_add_right offset size) h, if_pos h]
    exact (yields_pure _).bind_ok (hf h _)
  · rw [slice?, if_neg (fun hboth => h hboth.2), if_neg h]
    exact (yields_throw _).bind_error

/-- What the bytes at an offset of a part are. -/
theorem yields_slice_of_le (hlimit : bytes.length < sizeLimit) (h : offset + size ≤ bytes.length) :
    Yields (slice bytes offset (saturatingAdd offset size) : Guarded TableError (List UInt8))
      (.ok ((bytes.drop offset).take size)) := by
  rw [saturatingAdd_of_lt (Nat.lt_of_le_of_lt h hlimit)]
  have hpart : (bytes.drop offset).take size = (bytes.take (offset + size)).drop offset := by
    rw [List.drop_take, Nat.add_sub_cancel_left]
  rw [hpart]
  exact yields_slice (Nat.le_add_right offset size) h

theorem yields_wordFrom (hlimit : bytes.length < sizeLimit) (h : offset + 4 ≤ bytes.length) :
    Yields (wordFrom bytes offset) (.ok (wordAt bytes offset)) := by
  refine (yields_slice_of_le hlimit h).bind_ok ?_
  have hlength : ((bytes.drop offset).take 4).length = 4 := by simp; omega
  have hword : wordAt ((bytes.drop offset).take 4) 0 = wordAt bytes offset := by
    simp [wordAt, List.getD_eq_getElem?_getD]
  exact hword ▸ yields_wordOf hlength

theorem yields_halfWordFrom (hlimit : bytes.length < sizeLimit) (h : offset + 2 ≤ bytes.length) :
    Yields (halfWordFrom bytes offset) (.ok (halfWordAt bytes offset)) := by
  refine (yields_slice_of_le hlimit h).bind_ok ?_
  have hlength : ((bytes.drop offset).take 2).length = 2 := by simp; omega
  have hword : halfWordAt ((bytes.drop offset).take 2) 0 = halfWordAt bytes offset := by
    simp [halfWordAt, List.getD_eq_getElem?_getD]
  exact hword ▸ yields_halfWordOf hlength

theorem untilZero?_eq_map (bytes : List UInt8) :
    ConstantTable.untilZero? bytes = (bytes.findIdx? (· = 0)).map bytes.take := by
  induction bytes with
  | nil => rfl
  | cons b bytes ih =>
    rw [ConstantTable.untilZero?, List.findIdx?_cons]
    by_cases hb : b = 0
    · simp [hb]
    · simp [hb, ih, Function.comp_def]

theorem yields_text :
    Yields (text bytes what offset) (ConstantTable.stringAt bytes what offset) := by
  rw [text, ConstantTable.stringAt]
  by_cases h : bytes.length < offset
  · rw [slice?, if_neg (fun hboth => absurd hboth.1 (Nat.not_le.2 h)), if_pos h]
    exact yields_throw _
  · rw [slice?_of_le (Nat.not_lt.1 h) (Nat.le_refl _), List.take_length, if_neg h,
      untilZero?_eq_map]
    dsimp only
    cases hstop : (bytes.drop offset).findIdx? (· = 0) with
    | none => exact yields_throw _
    | some stop =>
      have hle : stop ≤ (bytes.drop offset).length := by
        obtain ⟨hlt, -⟩ := List.findIdx?_eq_some_iff_getElem.1 hstop
        exact Nat.le_of_lt hlt
      exact (yields_slice (Nat.zero_le stop) hle).bind_ok (yields_pure _)

theorem yields_text? :
    Yields (text? bytes what offset) (ConstantTable.stringAt? bytes what offset) := by
  rw [text?, ConstantTable.stringAt?]
  split
  · exact yields_pure _
  · have hbind : some <$> ConstantTable.stringAt bytes what offset =
        ConstantTable.stringAt bytes what offset >>= fun s => .ok (some s) := by
      cases ConstantTable.stringAt bytes what offset <;> rfl
    rw [hbind]
    exact yields_text.bind fun s _ => yields_pure (some s)

theorem yields_entry (hlimit : bytes.length < sizeLimit)
    (hoffset : offset + entrySize < sizeLimit) :
    Yields (entry bytes offset) (ConstantTable.entryAt bytes offset) := by
  refine yields_part_bind hoffset fun hinside _ => ?_
  rw [entrySize] at hinside
  refine (yields_wordFrom hlimit (by omega)).bind_ok ?_
  refine (yields_fitting (by omega)).bind_ok ?_
  refine (yields_halfWordFrom hlimit (by omega)).bind_ok ?_
  refine (yields_fitting (by omega)).bind_ok ?_
  refine (yields_halfWordFrom hlimit (by omega)).bind_ok ?_
  refine (yields_fitting (by omega)).bind_ok ?_
  refine (yields_halfWordFrom hlimit (by omega)).bind_ok ?_
  refine yields_text.bind fun name _ => ?_
  dsimp only
  cases RegisterSet.ofNumber? (halfWordAt bytes (offset + 4)) with
  | none => exact yields_throw _
  | some registerSet => exact yields_pure _

/-- Offsets of entries stay in their word, as long as there are no more entries than a word can
tell. -/
theorem yields_entries (hlimit : bytes.length < sizeLimit) {info i count : Nat}
    (hinfo : info < wordLimit) (hcount : i + count ≤ wordLimit) :
    Yields (entries bytes info i count)
      (ConstantTable.entriesFrom bytes (info + entrySize * i) count) := by
  induction count generalizing i with
  | zero => exact yields_pure _
  | succ count ih =>
    rw [wordLimit] at hinfo hcount
    have hmul : saturatingMul i entrySize = entrySize * i := by
      rw [saturatingMul_of_lt, Nat.mul_comm]
      rw [entrySize, sizeLimit]
      omega
    have hadd : saturatingAdd info (entrySize * i) = info + entrySize * i := by
      rw [saturatingAdd_of_lt]
      rw [entrySize, sizeLimit]
      omega
    rw [entries, hmul, hadd, ConstantTable.entriesFrom]
    refine (yields_entry hlimit (by rw [entrySize, sizeLimit]; omega)).bind fun first _ => ?_
    have hrest := ih (i := i + 1) (by rw [wordLimit]; omega)
    rw [Nat.mul_succ, ← Nat.add_assoc] at hrest
    exact hrest.bind fun rest _ => yields_pure _

/-- **Tables are read without a trap.** -/
theorem yields_parseTable (hlimit : bytes.length < sizeLimit) :
    Yields (parseTable bytes) (ConstantTable.parse bytes) := by
  refine yields_part_bind (by decide) fun hheader _ => ?_
  rw [headerSize] at hheader
  refine (yields_wordFrom hlimit (by omega)).bind_ok ?_
  refine (yields_wordFrom hlimit (by omega)).bind_ok ?_
  refine (yields_wordFrom hlimit (by omega)).bind_ok ?_
  refine (yields_wordFrom hlimit (by omega)).bind_ok ?_
  have hcount : 0 + (wordAt bytes 12).toNat ≤ wordLimit := by
    rw [Nat.zero_add]
    exact Nat.le_of_lt (wordAt bytes 12).toNat_lt
  have hentries := yields_entries hlimit (wordAt bytes 16).toNat_lt hcount
  rw [Nat.mul_zero, Nat.add_zero] at hentries
  dsimp only
  exact hentries.bind fun _ _ => yields_text?.bind fun _ _ => yields_text?.bind fun _ _ =>
    yields_pure _

end

end Guarded
end Bytecode
end ShaderKit
