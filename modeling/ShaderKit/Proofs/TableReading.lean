import ShaderKit.Proofs.Success
import ShaderKit.Proofs.WordBits

/-!
# Which constant tables are read, and as what

A constant table is a header, entries of twenty bytes at a place that the header tells, and strings
at places that header and entries tell.  `ConstantTable.IsInBounds` asks of bytes that each of these
parts lies inside them, and `ConstantTable.IsReadFrom` says which table they hold.  Both look at the
bytes by offset (`numberAt`, `textAt`), and neither minds how the parts lie to each other.

`ConstantTable.parse_eq_ok_iff` says that the parser does just that.  All of it is said of bytes
that are there, so it stays true when bytes are appended: numbers keep their bytes, and a string
that ends keeps its end (`numberAt_append`, `textAt_append`).
-/

set_option autoImplicit false

namespace ShaderKit
namespace Bytecode

/-! ## Numbers -/

/-- The number that bytes spell, the low byte first. -/
def littleEndian : List UInt8 → Nat
  | [] => 0
  | b :: bytes => b.toNat + 256 * littleEndian bytes

/-- The number that `size` bytes spell from an offset on. -/
def numberAt (bytes : List UInt8) (offset size : Nat) : Nat :=
  littleEndian ((bytes.drop offset).take size)

theorem toNat_wordOfBytes (a b c d : UInt8) :
    (wordOfBytes a b c d).toNat = littleEndian [a, b, c, d] := by
  have hbytes := bytesOfWord_wordOfBytes a b c d
  generalize wordOfBytes a b c d = w at hbytes ⊢
  have hlt := w.toNat_lt
  have h8 : (w >>> 8).toNat = w.toNat / 2 ^ 8 := toNat_shiftRight w rfl (by decide)
  have h16 : (w >>> 16).toNat = w.toNat / 2 ^ 16 := toNat_shiftRight w rfl (by decide)
  have h24 : (w >>> 24).toNat = w.toNat / 2 ^ 24 := toNat_shiftRight w rfl (by decide)
  simp only [bytesOfWord, List.cons.injEq, and_true] at hbytes
  obtain ⟨rfl, rfl, rfl, rfl⟩ := hbytes
  simp only [littleEndian, UInt32.toNat_toUInt8, h8, h16, h24]
  omega

theorem toNat_wordAt (bytes : List UInt8) (offset : Nat) :
    (wordAt bytes offset).toNat = numberAt bytes offset 4 := by
  rw [wordAt, numberAt, toNat_wordOfBytes]
  match bytes.drop offset with
  | [] | [_] | [_, _] | [_, _, _] | _ :: _ :: _ :: _ :: _ => simp [littleEndian]

theorem halfWordAt_eq (bytes : List UInt8) (offset : Nat) :
    halfWordAt bytes offset = numberAt bytes offset 2 := by
  rw [halfWordAt, numberAt]
  match bytes.drop offset with
  | [] | [_] | _ :: _ :: _ => simp [littleEndian]

/-- A number does not change when bytes are appended behind it. -/
theorem numberAt_append {bytes : List UInt8} {offset size : Nat}
    (h : offset + size ≤ bytes.length) (more : List UInt8) :
    numberAt (bytes ++ more) offset size = numberAt bytes offset size := by
  have hsize : size ≤ (bytes.drop offset).length := by
    rw [List.length_drop]
    omega
  rw [numberAt, numberAt, List.drop_append_of_le_length (by omega),
    List.take_append_of_le_length hsize]

/-! ## Strings -/

/-- A zero byte stands at the offset or behind it. -/
def IsTerminated (bytes : List UInt8) (offset : Nat) : Prop :=
  ∃ i, offset ≤ i ∧ bytes[i]? = some 0

/-- The text that stands at an offset, up to the first zero byte. -/
def textAt (bytes : List UInt8) (offset : Nat) : String :=
  String.ofList (Utf8.decode ((bytes.drop offset).takeWhile (· ≠ 0)))

theorem isTerminated_iff {bytes : List UInt8} {offset : Nat} :
    IsTerminated bytes offset ↔ 0 ∈ bytes.drop offset := by
  rw [List.mem_iff_getElem?]
  constructor
  · rintro ⟨i, hi, hzero⟩
    exact ⟨i - offset, by rwa [List.getElem?_drop, Nat.add_sub_cancel' hi]⟩
  · rintro ⟨i, hzero⟩
    rw [List.getElem?_drop] at hzero
    exact ⟨offset + i, Nat.le_add_right offset i, hzero⟩

theorem IsTerminated.append {bytes : List UInt8} {offset : Nat} (h : IsTerminated bytes offset)
    (more : List UInt8) : IsTerminated (bytes ++ more) offset := by
  obtain ⟨i, hi, hzero⟩ := h
  obtain ⟨hlt, -⟩ := List.getElem?_eq_some_iff.1 hzero
  exact ⟨i, hi, by rwa [List.getElem?_append_left hlt]⟩

/-- A text that ends keeps its end when bytes are appended. -/
theorem textAt_append {bytes : List UInt8} {offset : Nat} (h : IsTerminated bytes offset)
    (more : List UInt8) : textAt (bytes ++ more) offset = textAt bytes offset := by
  have hoffset : offset ≤ bytes.length := by
    obtain ⟨i, hi, hzero⟩ := h
    obtain ⟨hlt, -⟩ := List.getElem?_eq_some_iff.1 hzero
    omega
  obtain ⟨text, rest, hsplit, htext⟩ := List.eq_append_cons_of_mem (isTerminated_iff.1 h)
  have hstop (rest : List UInt8) : (text ++ 0 :: rest).takeWhile (· ≠ 0) = text := by
    have hgo : ∀ b ∈ text, (b ≠ 0 : Bool) = true := fun b hb => by
      simpa using fun hzero : b = 0 => htext (hzero ▸ hb)
    rw [List.takeWhile_append_of_pos hgo, List.takeWhile_cons_of_neg (by simp), List.append_nil]
  rw [textAt, textAt, List.drop_append_of_le_length hoffset, hsplit, List.append_assoc,
    List.cons_append, hstop, hstop]

namespace ConstantTable

theorem untilZero?_eq (bytes : List UInt8) :
    untilZero? bytes = if 0 ∈ bytes then some (bytes.takeWhile (· ≠ 0)) else none := by
  induction bytes with
  | nil => rfl
  | cons b bytes ih =>
    rw [untilZero?]
    by_cases hb : b = 0
    · simp [hb]
    · rw [if_neg hb, ih, List.takeWhile_cons_of_pos (by simpa using hb)]
      by_cases hzero : 0 ∈ bytes
      · simp [hzero]
      · simp [hzero, Ne.symm hb]

theorem stringAt_eq_ok_iff {bytes : List UInt8} {part : TablePart} {offset : Nat}
    {text : String} :
    stringAt bytes part offset = .ok text ↔
      IsTerminated bytes offset ∧ text = textAt bytes offset := by
  rw [isTerminated_iff, stringAt, untilZero?_eq]
  by_cases hzero : 0 ∈ bytes.drop offset
  · have hoffset : ¬ bytes.length < offset := by
      intro h
      rw [List.drop_eq_nil_of_le (Nat.le_of_lt h)] at hzero
      cases hzero
    simp only [hoffset, hzero, if_true, if_false, true_and, Except.ok.injEq]
    exact eq_comm
  · simp only [hzero, if_false, false_and, iff_false]
    split <;> exact nofun

theorem stringAt?_eq_ok_iff {bytes : List UInt8} {part : TablePart} {offset : Nat}
    {text? : Option String} :
    stringAt? bytes part offset = .ok text? ↔
      (offset = 0 ∨ IsTerminated bytes offset) ∧
        text? = if offset = 0 then none else some (textAt bytes offset) := by
  rw [stringAt?]
  by_cases h : offset = 0
  · simp [h, eq_comm]
  · simp only [h, if_false, false_or]
    cases hstring : stringAt bytes part offset with
    | error e =>
      have hnone : ¬ IsTerminated bytes offset := fun hend => by
        rw [stringAt_eq_ok_iff.2 ⟨hend, rfl⟩] at hstring
        cases hstring
      simp [hnone]
    | ok text =>
      obtain ⟨hend, rfl⟩ := stringAt_eq_ok_iff.1 hstring
      simp [hend, eq_comm]

end ConstantTable

/-! ## Entries -/

/-- The number that stands for a register set. -/
def RegisterSet.number : RegisterSet → Nat
  | bool => 0
  | int4 => 1
  | float4 => 2
  | sampler => 3

theorem RegisterSet.ofNumber?_eq_some_iff {n : Nat} {set : RegisterSet} :
    RegisterSet.ofNumber? n = some set ↔ set.number = n := by
  match n with
  | 0 | 1 | 2 | 3 => cases set <;> decide
  | n + 4 => cases set <;> simp [RegisterSet.ofNumber?, RegisterSet.all, RegisterSet.number]

/-- The bytes have a whole entry at the offset: it lies inside them, its register set is one of
four, and its name ends. -/
structure HoldsEntry (bytes : List UInt8) (offset : Nat) : Prop where
  inside : offset + 20 ≤ bytes.length
  registerSet : numberAt bytes (offset + 4) 2 ≤ 3
  name : IsTerminated bytes (numberAt bytes offset 4)

namespace TableEntry

/-- The constant is what the entry at the offset says. -/
structure IsReadFrom (e : TableEntry) (bytes : List UInt8) (offset : Nat) : Prop where
  name : e.name = textAt bytes (numberAt bytes offset 4)
  registerSet : e.registerSet.number = numberAt bytes (offset + 4) 2
  registerIndex : e.registerIndex = numberAt bytes (offset + 6) 2
  registerCount : e.registerCount = numberAt bytes (offset + 8) 2

end TableEntry

namespace ConstantTable

theorem require_eq_ok_iff {bytes : List UInt8} {part : TablePart} {start size : Nat} :
    require bytes part start size = .ok () ↔ start + size ≤ bytes.length := by
  rw [require]
  split <;> simp_all

theorem entryAt_eq_ok_iff {bytes : List UInt8} {offset : Nat} {e : TableEntry} :
    entryAt bytes offset = .ok e ↔ HoldsEntry bytes offset ∧ e.IsReadFrom bytes offset := by
  rw [entryAt, bind_eq_ok_iff]
  simp only [toNat_wordAt, halfWordAt_eq]
  constructor
  · rintro ⟨⟨⟩, hinside, h⟩
    obtain ⟨name, hname, h⟩ := bind_eq_ok_iff.1 h
    obtain ⟨hend, rfl⟩ := stringAt_eq_ok_iff.1 hname
    split at h
    · cases h
    · rename_i set hset
      cases h
      have hnumber := RegisterSet.ofNumber?_eq_some_iff.1 hset
      refine ⟨⟨require_eq_ok_iff.1 hinside, ?_, hend⟩, ⟨rfl, hnumber, rfl, rfl⟩⟩
      rw [← hnumber]
      cases set <;> decide
  · rintro ⟨⟨hinside, -, hend⟩, ⟨hname, hset, hindex, hcount⟩⟩
    refine ⟨(), require_eq_ok_iff.2 hinside, bind_eq_ok_iff.2
      ⟨_, stringAt_eq_ok_iff.2 ⟨hend, rfl⟩, ?_⟩⟩
    rw [RegisterSet.ofNumber?_eq_some_iff.2 hset]
    rw [← hname, ← hindex, ← hcount]
    rfl

/-- A whole entry is read. -/
theorem exists_entryAt {bytes : List UInt8} {offset : Nat} (h : HoldsEntry bytes offset) :
    ∃ e, entryAt bytes offset = .ok e := by
  have hset : ∃ set : RegisterSet, set.number = numberAt bytes (offset + 4) 2 := by
    have hle := h.registerSet
    generalize numberAt bytes (offset + 4) 2 = n at hle ⊢
    match n with
    | 0 => exact ⟨.bool, rfl⟩
    | 1 => exact ⟨.int4, rfl⟩
    | 2 => exact ⟨.float4, rfl⟩
    | 3 => exact ⟨.sampler, rfl⟩
  obtain ⟨set, hset⟩ := hset
  exact ⟨⟨_, set, _, _⟩, entryAt_eq_ok_iff.2 ⟨h, ⟨rfl, hset, rfl, rfl⟩⟩⟩

/-- The entries are read one by one. -/
theorem entriesFrom_eq_ok_iff {bytes : List UInt8} {offset count : Nat} {es : List TableEntry} :
    entriesFrom bytes offset count = .ok es ↔
      es.length = count ∧ ∀ i e, es[i]? = some e → entryAt bytes (offset + 20 * i) = .ok e := by
  induction count generalizing offset es with
  | zero =>
    rw [entriesFrom, Except.ok.injEq, List.length_eq_zero_iff, eq_comm]
    constructor
    · rintro rfl
      exact ⟨rfl, fun i e h => by simp at h⟩
    · exact And.left
  | succ count ih =>
    rw [entriesFrom, bind_eq_ok_iff]
    constructor
    · rintro ⟨e, he, h⟩
      obtain ⟨rest, hrest, h⟩ := bind_eq_ok_iff.1 h
      cases h
      obtain ⟨rfl, hentries⟩ := ih.1 hrest
      refine ⟨rfl, fun i e' hi => ?_⟩
      cases i with
      | zero =>
        cases hi
        exact he
      | succ i =>
        have hentry := hentries i e' hi
        rwa [entrySize, Nat.add_assoc, Nat.add_comm 20, ← Nat.mul_succ] at hentry
    · rintro ⟨hlength, hentries⟩
      obtain ⟨e, rest, rfl⟩ := List.exists_cons_of_length_eq_add_one hlength
      refine ⟨e, hentries 0 e rfl, bind_eq_ok_iff.2 ⟨rest, ih.2 ⟨?_, fun i e' hi => ?_⟩, rfl⟩⟩
      · exact Nat.succ.inj hlength
      · have hentry := hentries (i + 1) e' hi
        rwa [entrySize, Nat.add_assoc, Nat.add_comm 20, ← Nat.mul_succ]

/-- Whole entries are read. -/
theorem exists_entriesFrom {bytes : List UInt8} {offset count : Nat}
    (h : ∀ i < count, HoldsEntry bytes (offset + 20 * i)) :
    ∃ es, entriesFrom bytes offset count = .ok es := by
  induction count generalizing offset with
  | zero => exact ⟨[], rfl⟩
  | succ count ih =>
    obtain ⟨e, he⟩ := exists_entryAt (h 0 (Nat.succ_pos count))
    have hrest : ∀ i < count, HoldsEntry bytes (offset + entrySize + 20 * i) := fun i hi => by
      have hentry := h (i + 1) (Nat.succ_lt_succ hi)
      rwa [Nat.mul_succ, Nat.add_comm _ 20, ← Nat.add_assoc] at hentry
    obtain ⟨es, hes⟩ := ih hrest
    exact ⟨e :: es, bind_eq_ok_iff.2 ⟨e, he, bind_eq_ok_iff.2 ⟨es, hes, rfl⟩⟩⟩

/-! ## Tables -/

/-- The place of the entry with the given number. -/
def entryOffset (bytes : List UInt8) (i : Nat) : Nat := numberAt bytes 16 4 + 20 * i

/-- All parts of a table lie inside the bytes: the header, as many entries as it tells, and the
strings, where zero stands for a string that there is not. -/
structure IsInBounds (bytes : List UInt8) : Prop where
  header : 28 ≤ bytes.length
  entries : ∀ i < numberAt bytes 12 4, HoldsEntry bytes (entryOffset bytes i)
  creator : numberAt bytes 4 4 = 0 ∨ IsTerminated bytes (numberAt bytes 4 4)
  target : numberAt bytes 24 4 = 0 ∨ IsTerminated bytes (numberAt bytes 24 4)

/-- The table is what the bytes say: the constants are those of the entries, in their order. -/
structure IsReadFrom (t : ConstantTable) (bytes : List UInt8) : Prop where
  length : t.constants.length = numberAt bytes 12 4
  constants : ∀ (i : Nat) (e : TableEntry), t.constants[i]? = some e →
    e.IsReadFrom bytes (entryOffset bytes i)
  creator : t.creator =
    if numberAt bytes 4 4 = 0 then none else some (textAt bytes (numberAt bytes 4 4))
  target : t.target =
    if numberAt bytes 24 4 = 0 then none else some (textAt bytes (numberAt bytes 24 4))

theorem parse_eq_ok_iff {bytes : List UInt8} {t : ConstantTable} :
    parse bytes = .ok t ↔ IsInBounds bytes ∧ t.IsReadFrom bytes := by
  rw [parse, bind_eq_ok_iff]
  simp only [toNat_wordAt]
  constructor
  · rintro ⟨⟨⟩, hheader, h⟩
    obtain ⟨es, hes, h⟩ := bind_eq_ok_iff.1 h
    obtain ⟨creator, hcreator, h⟩ := bind_eq_ok_iff.1 h
    obtain ⟨target, htarget, h⟩ := bind_eq_ok_iff.1 h
    cases h
    obtain ⟨hlength, hentries⟩ := entriesFrom_eq_ok_iff.1 hes
    obtain ⟨hends, rfl⟩ := stringAt?_eq_ok_iff.1 hcreator
    obtain ⟨hends', rfl⟩ := stringAt?_eq_ok_iff.1 htarget
    refine ⟨⟨?_, fun i hi => ?_, hends, hends'⟩, ⟨hlength, fun i e he => ?_, rfl, rfl⟩⟩
    · simpa [headerSize] using require_eq_ok_iff.1 hheader
    · rw [← hlength] at hi
      exact (entryAt_eq_ok_iff.1 (hentries i _ (List.getElem?_eq_getElem hi))).1
    · exact (entryAt_eq_ok_iff.1 (hentries i e he)).2
  · rintro ⟨hbounds, hread⟩
    refine ⟨(), require_eq_ok_iff.2 (by simpa [headerSize] using hbounds.header), ?_⟩
    have hentries : entriesFrom bytes (numberAt bytes 16 4) (numberAt bytes 12 4) =
        .ok t.constants := by
      refine entriesFrom_eq_ok_iff.2 ⟨hread.length, fun i e he => ?_⟩
      obtain ⟨hi, -⟩ := List.getElem?_eq_some_iff.1 he
      rw [hread.length] at hi
      exact entryAt_eq_ok_iff.2 ⟨hbounds.entries i hi, hread.constants i e he⟩
    exact bind_eq_ok_iff.2 ⟨_, hentries, bind_eq_ok_iff.2
      ⟨_, stringAt?_eq_ok_iff.2 ⟨hbounds.creator, hread.creator⟩, bind_eq_ok_iff.2
        ⟨_, stringAt?_eq_ok_iff.2 ⟨hbounds.target, hread.target⟩, rfl⟩⟩⟩

/-- A table that is in bounds is read. -/
theorem exists_parse {bytes : List UInt8} (h : IsInBounds bytes) : ∃ t, parse bytes = .ok t := by
  obtain ⟨es, hes⟩ := exists_entriesFrom h.entries
  obtain ⟨hlength, hentries⟩ := entriesFrom_eq_ok_iff.1 hes
  refine ⟨⟨_, _, es⟩, parse_eq_ok_iff.2 ⟨h, ⟨hlength, fun i e he => ?_, rfl, rfl⟩⟩⟩
  exact (entryAt_eq_ok_iff.1 (hentries i e he)).2

/-- The entries of a table that is in bounds all lie inside it. -/
theorem IsInBounds.count_le {bytes : List UInt8} (h : IsInBounds bytes)
    (hcount : 0 < numberAt bytes 12 4) :
    numberAt bytes 16 4 + 20 * numberAt bytes 12 4 ≤ bytes.length := by
  have hlast := (h.entries _ (Nat.sub_lt hcount Nat.one_pos)).inside
  rw [entryOffset] at hlast
  omega

/-! ## More bytes -/

section

variable {bytes : List UInt8} (more : List UInt8)

theorem holdsEntry_append {offset : Nat} (h : HoldsEntry bytes offset) :
    HoldsEntry (bytes ++ more) offset where
  inside := by
    have hinside := h.inside
    rw [List.length_append]
    omega
  registerSet := by
    have hinside := h.inside
    rw [numberAt_append (by omega)]
    exact h.registerSet
  name := by
    have hinside := h.inside
    rw [numberAt_append (by omega)]
    exact h.name.append more

theorem isReadFrom_append {offset : Nat} (h : HoldsEntry bytes offset) {e : TableEntry}
    (he : e.IsReadFrom bytes offset) : e.IsReadFrom (bytes ++ more) offset := by
  have hinside := h.inside
  obtain ⟨hname, hset, hindex, hcount⟩ := he
  constructor
  · rw [numberAt_append (by omega), textAt_append h.name, hname]
  · rw [numberAt_append (by omega), hset]
  · rw [numberAt_append (by omega), hindex]
  · rw [numberAt_append (by omega), hcount]

theorem numberAt_header_append (hheader : 28 ≤ bytes.length) {offset : Nat}
    (hoffset : offset + 4 ≤ 28) :
    numberAt (bytes ++ more) offset 4 = numberAt bytes offset 4 :=
  numberAt_append (by omega) more

theorem entryOffset_append (hheader : 28 ≤ bytes.length) (i : Nat) :
    entryOffset (bytes ++ more) i = entryOffset bytes i := by
  rw [entryOffset, entryOffset, numberAt_header_append more hheader (by decide)]

theorem IsInBounds.append (h : IsInBounds bytes) : IsInBounds (bytes ++ more) := by
  have hheader := h.header
  constructor
  · rw [List.length_append]
    omega
  · intro i hi
    rw [numberAt_header_append more hheader (by decide)] at hi
    rw [entryOffset_append more hheader]
    exact holdsEntry_append more (h.entries i hi)
  · rw [numberAt_header_append more hheader (by decide)]
    exact h.creator.imp id fun hend => hend.append more
  · rw [numberAt_header_append more hheader (by decide)]
    exact h.target.imp id fun hend => hend.append more

theorem optionalText_append {offset : Nat} (hend : offset = 0 ∨ IsTerminated bytes offset) :
    (if offset = 0 then none else some (textAt (bytes ++ more) offset)) =
      if offset = 0 then none else some (textAt bytes offset) := by
  rcases hend with rfl | hend
  · rfl
  · rw [textAt_append hend]

theorem IsReadFrom.append {t : ConstantTable} (h : IsInBounds bytes) (ht : t.IsReadFrom bytes) :
    t.IsReadFrom (bytes ++ more) := by
  have hheader := h.header
  constructor
  · rw [numberAt_header_append more hheader (by decide), ht.length]
  · intro i e he
    obtain ⟨hi, -⟩ := List.getElem?_eq_some_iff.1 he
    rw [ht.length] at hi
    rw [entryOffset_append more hheader]
    exact isReadFrom_append more (h.entries i hi) (ht.constants i e he)
  · rw [numberAt_header_append more hheader (by decide), optionalText_append more h.creator,
      ht.creator]
  · rw [numberAt_header_append more hheader (by decide), optionalText_append more h.target,
      ht.target]

/-- What is read from a table is read from it whatever is appended. -/
theorem parse_append {t : ConstantTable} (h : parse bytes = .ok t) :
    parse (bytes ++ more) = .ok t := by
  obtain ⟨hbounds, hread⟩ := parse_eq_ok_iff.1 h
  exact parse_eq_ok_iff.2 ⟨hbounds.append more, hread.append more hbounds⟩

end

/-- **The parser accepts exactly the tables that are in bounds.**  From these it reads the constants
of the entries, in their order, and the strings, wherever they lie; it does not believe a number of
entries that there is no room for; and it reads nothing behind the table. -/
theorem parse_inBounds (bytes : List UInt8) :
    ((∃ t, parse bytes = .ok t) ↔ IsInBounds bytes) ∧
      ∀ t, parse bytes = .ok t →
        t.IsReadFrom bytes ∧
        (0 < numberAt bytes 12 4 →
          numberAt bytes 16 4 + 20 * numberAt bytes 12 4 ≤ bytes.length) ∧
        ∀ more, parse (bytes ++ more) = .ok t := by
  refine ⟨⟨?_, exists_parse⟩, fun t ht => ?_⟩
  · rintro ⟨t, ht⟩
    exact (parse_eq_ok_iff.1 ht).1
  · obtain ⟨hbounds, hread⟩ := parse_eq_ok_iff.1 ht
    exact ⟨hread, hbounds.count_le, fun more => parse_append more ht⟩

/-- A table of a header and nothing else: its only entry begins in the middle of the header, and the
name of that is where the header begins. -/
def folded : List UInt8 :=
  [0x61, 0x62, 0, 0, 0, 0, 0, 0, 0, 0, 0, 0, 1, 0, 0, 0, 8, 0, 0, 0, 0, 0, 0, 0, 1, 0, 0, 0]

theorem parse_inBounds_folded :
    parse folded = .ok ⟨none, some "b", [⟨"ab", .int4, 0, 8⟩]⟩ ∧ IsInBounds folded ∧
      8 + 20 * 1 ≤ folded.length ∧
      parse (folded ++ [0x63]) = .ok ⟨none, some "b", [⟨"ab", .int4, 0, 8⟩]⟩ := by
  have hparse : parse folded = .ok ⟨none, some "b", [⟨"ab", .int4, 0, 8⟩]⟩ := by decide
  obtain ⟨haccepted, hread⟩ := parse_inBounds folded
  obtain ⟨-, hcount, hmore⟩ := hread _ hparse
  exact ⟨hparse, haccepted.1 ⟨_, hparse⟩, hcount (by decide), hmore [0x63]⟩

end ConstantTable
end Bytecode
end ShaderKit
