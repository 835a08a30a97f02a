import ShaderKit.Bytecode.Effect
import ShaderKit.Proofs.WordBits

/-!
# Fields and their readers

A file that is read from front to back is a row of fields, one for each step of the reader.  That a
reader reads a row of fields as something (`Reads`) is to say two things: it finds that something,
if all fields are there, and stops behind them; and if they break off, it fails at the start of the
field that is cut (`fieldStart`).  A reader can be understood by its fields (`Recovers`) if all that
it ever accepts are rows of them.

Both are put together as readers are: there is a lemma for each way to combine readers, and so the
proofs about a reader follow its definition.  A reader that is bound to another one reads the fields
of both, one row behind the other (`Reads.bind`); one that is run so many times reads so many rows
(`reads_times`, `Recovers.times`).

The two halves of `Reads` are needed together.  To know how a row of two readers breaks off, it must
be known where the first of them stops if it is given all of its fields, and so each half of
`Reads.bind` uses the first half of its first reader.

Where a row breaks off is told in bytes of the whole file.  `fieldStart` does not depend on what the
bytes are, only on how long each field is, and it never decreases if more of the row is kept
(`fieldStart_mono`).
-/

set_option autoImplicit false

namespace ShaderKit
namespace Bytecode

/-! ## Fields -/

/-- The number of bytes before the field that byte number `n` belongs to; if there is no such byte,
the number of all. -/
def fieldStart : List (List UInt8) → Nat → Nat
  | [], _ => 0
  | field :: fields, n =>
    if n < field.length then 0 else field.length + fieldStart fields (n - field.length)

theorem fieldStart_le (fields : List (List UInt8)) (n : Nat) : fieldStart fields n ≤ n := by
  induction fields generalizing n with
  | nil => exact Nat.zero_le n
  | cons field fields ih =>
    rw [fieldStart]
    split
    · exact Nat.zero_le n
    · have hrest := ih (n - field.length)
      omega

/-- If more bytes are kept, the field that is cut does not start earlier. -/
theorem fieldStart_mono (fields : List (List UInt8)) {n m : Nat} (h : n ≤ m) :
    fieldStart fields n ≤ fieldStart fields m := by
  induction fields generalizing n m with
  | nil => exact Nat.le_refl 0
  | cons field fields ih =>
    rw [fieldStart, fieldStart]
    split
    · exact Nat.zero_le _
    · rw [if_neg (by omega)]
      exact Nat.add_le_add_left (ih (by omega)) _

/-- The first row is cut; what follows it does not matter. -/
theorem fieldStart_append_of_lt {fields more : List (List UInt8)} {n : Nat}
    (h : n < fields.flatten.length) : fieldStart (fields ++ more) n = fieldStart fields n := by
  induction fields generalizing n with
  | nil => simp at h
  | cons field fields ih =>
    rw [List.flatten_cons, List.length_append] at h
    rw [List.cons_append, fieldStart, fieldStart]
    split
    · rfl
    · rw [ih (by omega)]

/-- The first row is there; the second is cut where it would be cut alone. -/
theorem fieldStart_append_of_le {fields more : List (List UInt8)} {n : Nat}
    (h : fields.flatten.length ≤ n) :
    fieldStart (fields ++ more) n =
      fields.flatten.length + fieldStart more (n - fields.flatten.length) := by
  induction fields generalizing n with
  | nil => simp
  | cons field fields ih =>
    rw [List.flatten_cons, List.length_append] at h ⊢
    rw [List.cons_append, fieldStart, if_neg (by omega), ih (by omega), Nat.sub_sub, Nat.add_assoc]

namespace Reader

/-! ## One reader after another -/

section

variable {α β : Type} {r : Reader α} {k : α → Reader β} {c c' : Cursor} {a : α}

theorem bind_of_ok (h : r c = .ok (a, c')) : (r >>= k) c = k a c' := by
  change (r c >>= fun p => k p.1 p.2) = _
  rw [h]
  rfl

theorem bind_of_error {e : EffectError} (h : r c = .error e) : (r >>= k) c = .error e := by
  change (r c >>= fun p => k p.1 p.2) = _
  rw [h]
  rfl

/-- If one reader after another succeeds, then both did, and the second where the first stopped. -/
theorem exists_of_bind_eq_ok {b : β} (h : (r >>= k) c = .ok (b, c')) :
    ∃ a c'', r c = .ok (a, c'') ∧ k a c'' = .ok (b, c') := by
  cases hr : r c with
  | error e =>
    rw [bind_of_error hr] at h
    cases h
  | ok p =>
    obtain ⟨a, c''⟩ := p
    rw [bind_of_ok hr] at h
    exact ⟨a, c'', rfl, h⟩

end

/-! ## Reading fields -/

/-- The reader reads the fields as a value, and where they break off it fails at the field that is
cut. -/
structure Reads {α : Type} (r : Reader α) (fields : List (List UInt8)) (a : α) : Prop where
  whole : ∀ index rest, r ⟨index, fields.flatten ++ rest⟩ =
    .ok (a, ⟨index + fields.flatten.length, rest⟩)
  cut : ∀ index kept lost, kept ++ lost = fields.flatten → lost ≠ [] →
    r ⟨index, kept⟩ = .error (.unexpectedEnd (index + fieldStart fields kept.length))

section

variable {α β : Type}

/-- Of the fields, only the first `n` bytes are there. -/
theorem Reads.take {r : Reader α} {fields : List (List UInt8)} {a : α} (h : Reads r fields a)
    (index : Nat) {n : Nat} (hn : n < fields.flatten.length) :
    r ⟨index, fields.flatten.take n⟩ = .error (.unexpectedEnd (index + fieldStart fields n)) := by
  have hlost : fields.flatten.drop n ≠ [] := by
    rw [Ne, List.drop_eq_nil_iff]
    omega
  have hcut := h.cut index _ _ (List.take_append_drop n fields.flatten) hlost
  rwa [List.length_take, Nat.min_eq_left (Nat.le_of_lt hn)] at hcut

/-- The step that all others are made of: so many bytes are one field. -/
theorem reads_bytes (field : List UInt8) : Reads (Reader.bytes field.length) [field] field where
  whole index rest := by
    have hsplit : splitOff? field.length (field ++ rest) = some (field, rest) :=
      splitOff?_eq_some_iff.2 ⟨rfl, rfl⟩
    simp only [Reader.bytes, List.flatten_singleton, hsplit]
  cut index kept lost hfield hlost := by
    rw [List.flatten_singleton] at hfield
    have hlength : kept.length < field.length := by
      have hpos := List.length_pos_iff.2 hlost
      rw [← hfield, List.length_append]
      omega
    have hsplit : splitOff? field.length kept = none := by
      refine Option.eq_none_iff_forall_ne_some.2 fun p hp => ?_
      obtain ⟨hkept, htaken⟩ := splitOff?_eq_some_iff.1 hp
      rw [hkept, List.length_append] at hlength
      omega
    simp only [Reader.bytes, hsplit, fieldStart, if_pos hlength, Nat.add_zero]

theorem reads_pure (a : α) : Reads (pure a) [] a where
  whole _ _ := rfl
  cut _ _ _ hfields hlost := absurd (List.append_eq_nil_iff.1 hfields).2 hlost

/-- A step that reads nothing, and succeeds. -/
theorem reads_lift {x : Except EffectError α} {a : α} (h : x = .ok a) :
    Reads (liftM x) [] a := by
  subst h
  exact reads_pure a

/-- Readers one after the other read their rows one behind the other. -/
theorem Reads.bind {r : Reader α} {k : α → Reader β} {fields more : List (List UInt8)} {a : α}
    {b : β} (hr : Reads r fields a) (hk : Reads (k a) more b) :
    Reads (r >>= k) (fields ++ more) b where
  whole index rest := by
    have hfirst := hr.whole index (more.flatten ++ rest)
    rw [List.flatten_append, List.append_assoc, bind_of_ok hfirst, hk.whole, List.length_append,
      Nat.add_assoc]
  cut index kept lost hfields hlost := by
    rw [List.flatten_append] at hfields
    rcases List.append_eq_append_iff.1 hfields with ⟨missing, hkept, hrest⟩ | ⟨read, hkept, hrest⟩
    · by_cases hmissing : missing = []
      -- the cut is between the two rows
      · subst hmissing
        rw [List.append_nil] at hkept
        have hfirst := hr.whole index []
        rw [List.append_nil, hkept] at hfirst
        rw [bind_of_ok hfirst, hk.cut _ [] lost hrest hlost, ← hkept,
          fieldStart_append_of_le (Nat.le_refl _), Nat.sub_self, List.length_nil, Nat.add_assoc]
      · have hlength : kept.length < fields.flatten.length := by
          have hpos := List.length_pos_iff.2 hmissing
          rw [hkept, List.length_append]
          omega
        rw [bind_of_error (hr.cut index kept missing hkept.symm hmissing),
          fieldStart_append_of_lt hlength]
    · subst hkept
      rw [bind_of_ok (hr.whole index read), hk.cut _ read lost hrest.symm hlost,
        fieldStart_append_of_le (by simp), List.length_append, Nat.add_sub_cancel_left,
        Nat.add_assoc]

/-- A reader may return something about what it has read. -/
theorem Reads.returning {r : Reader α} {fields : List (List UInt8)} {a : α} {f : α → β}
    (h : Reads r fields a) : Reads (r >>= fun a => pure (f a)) fields (f a) := by
  have hbind : Reads (r >>= fun a => pure (f a)) (fields ++ []) (f a) := h.bind (reads_pure (f a))
  rwa [List.append_nil] at hbind

/-- A reader that is run once for each item reads the rows of all items. -/
theorem reads_times {r : Reader α} {γ : Type} {fields : γ → List (List UInt8)} {value : γ → α}
    {items : List γ} (h : ∀ x ∈ items, Reads r (fields x) (value x)) :
    Reads (times items.length r) (items.flatMap fields) (items.map value) := by
  induction items with
  | nil => exact reads_pure []
  | cons x items ih =>
    rw [List.forall_mem_cons] at h
    exact h.1.bind (ih h.2).returning

end

theorem wordAt_bytesOfWord (w : UInt32) : wordAt (bytesOfWord w) 0 = w :=
  wordOfBytes_bytesOfWord w

/-- A word is a field of four bytes. -/
theorem reads_word (w : UInt32) : Reads Reader.word [bytesOfWord w] w := by
  have hread : Reads Reader.word [bytesOfWord w] (wordAt (bytesOfWord w) 0) :=
    (reads_bytes (bytesOfWord w)).returning
  rwa [wordAt_bytesOfWord] at hread

theorem reads_count (w : UInt32) : Reads Reader.count [bytesOfWord w] w.toNat :=
  (reads_word w).returning

theorem reads_skipWords {size : Nat} {field : List UInt8} (h : field.length = 4 * size) :
    Reads (Reader.skipWords size) [field] () := by
  rw [Reader.skipWords, ← h]
  exact (reads_bytes field).returning

/-! ## What a reader accepts -/

/-- The reader accepts nothing but the fields of something, and reads them as its value. -/
def Recovers {α γ : Type} (r : Reader α) (fields : γ → List (List UInt8)) (value : γ → α)
    (valid : γ → Prop) : Prop :=
  ∀ c c' a, r c = .ok (a, c') →
    ∃ x, c.rest = (fields x).flatten ++ c'.rest ∧ value x = a ∧ valid x

section

variable {c c' : Cursor}

theorem eq_of_pure_eq_ok {α : Type} {a b : α}
    (h : (pure a : Reader α) c = .ok (b, c')) : a = b ∧ c = c' := by
  cases h
  exact ⟨rfl, rfl⟩

/-- What was taken is gone from the front, and is as long as was asked for. -/
theorem rest_of_bytes {size : Nat} {taken : List UInt8}
    (h : Reader.bytes size c = .ok (taken, c')) :
    c.rest = taken ++ c'.rest ∧ taken.length = size := by
  rw [Reader.bytes] at h
  split at h
  · rename_i t rest hsplit
    cases h
    exact splitOff?_eq_some_iff.1 hsplit
  · cases h

/-- The bytes of a word that was read are those that the word has. -/
theorem rest_of_word {w : UInt32} (h : Reader.word c = .ok (w, c')) :
    c.rest = bytesOfWord w ++ c'.rest := by
  obtain ⟨taken, c₁, htaken, h⟩ := exists_of_bind_eq_ok h
  obtain ⟨hrest, hlength⟩ := rest_of_bytes htaken
  obtain ⟨rfl, rfl⟩ := eq_of_pure_eq_ok h
  match taken, hlength with
  | [a, b, d, e], _ =>
    have hword : bytesOfWord (wordAt [a, b, d, e] 0) = [a, b, d, e] :=
      bytesOfWord_wordOfBytes a b d e
    rw [hrest, hword]

theorem rest_of_count {n : Nat} (h : Reader.count c = .ok (n, c')) :
    ∃ w : UInt32, w.toNat = n ∧ c.rest = bytesOfWord w ++ c'.rest := by
  obtain ⟨w, c₁, hword, h⟩ := exists_of_bind_eq_ok h
  obtain ⟨rfl, rfl⟩ := eq_of_pure_eq_ok h
  exact ⟨w, rfl, rest_of_word hword⟩

theorem rest_of_skipWords {size : Nat} {u : Unit} (h : Reader.skipWords size c = .ok (u, c')) :
    ∃ skipped : List UInt8, skipped.length = 4 * size ∧ c.rest = skipped ++ c'.rest := by
  obtain ⟨skipped, c₁, hskipped, h⟩ := exists_of_bind_eq_ok h
  obtain ⟨-, rfl⟩ := eq_of_pure_eq_ok h
  obtain ⟨hrest, hlength⟩ := rest_of_bytes hskipped
  exact ⟨skipped, hlength, hrest⟩

/-- Runs of a reader, one after the other, each accept something. -/
theorem Recovers.times {α γ : Type} {r : Reader α} {fields : γ → List (List UInt8)}
    {value : γ → α} {valid : γ → Prop} (hr : Recovers r fields value valid) {n : Nat}
    {values : List α} (h : Reader.times n r c = .ok (values, c')) :
    ∃ items : List γ, items.length = n ∧ c.rest = (items.flatMap fields).flatten ++ c'.rest ∧
      items.map value = values ∧ ∀ x ∈ items, valid x := by
  induction n generalizing c values with
  | zero =>
    obtain ⟨rfl, rfl⟩ := eq_of_pure_eq_ok h
    exact ⟨[], rfl, rfl, rfl, by simp⟩
  | succ n ih =>
    obtain ⟨a, c₁, ha, h⟩ := exists_of_bind_eq_ok h
    obtain ⟨as, c₂, has, h⟩ := exists_of_bind_eq_ok h
    obtain ⟨rfl, rfl⟩ := eq_of_pure_eq_ok h
    obtain ⟨x, hrest, rfl, hx⟩ := hr c c₁ a ha
    obtain ⟨items, hlength, hrest', rfl, hitems⟩ := ih has
    refine ⟨x :: items, by rw [List.length_cons, hlength], ?_, rfl,
      List.forall_mem_cons.2 ⟨hx, hitems⟩⟩
    rw [hrest, hrest', List.flatMap_cons, List.flatten_append, List.append_assoc]

end

end Reader
end Bytecode
end ShaderKit
