import Mathlib.Data.List.Infix
import Mathlib.Tactic.SplitIfs
import ShaderKit.Text.Newline
import ShaderKit.Text.Utf8

/-!
# Line ends, before and after decoding

Bytes have line ends just as characters have: a line feed, with or without a carriage return in
front.  `dropReturns` makes them all line feeds, whatever the two are written as; on characters it
is `normaliseNewlines`.

It makes no difference whether bytes are decoded first or normalised first
(`normaliseNewlines_decode`), and this is true of all bytes, also of those that are not UTF-8.  Two
facts about the decoder are behind it.  An ASCII byte is read as itself even if it cuts a character
off, and an ASCII character is put out by no other byte (`toNat_of_mem_step`), since a number below
`80` has no long form: what has been begun can only become a greater one (`Pending.IsLong`).

So bytes read as the same text after carriage returns have been put in front of some of their line
feeds (`Text.Respelled`), unless there were carriage returns already (`text_of_respelled`).
-/

set_option autoImplicit false

namespace ShaderKit
namespace Text

variable {α : Type} {cr lf : α}

/-! ## Carriage returns and line feeds -/

/-- No `cr` stands right before an `lf`. -/
def IsPlain (cr lf : α) (s : List α) : Prop := ¬ [cr, lf] <:+: s

/-- The second list is the first one with a `cr` put in front of some `lf`s. -/
inductive Respelled (cr lf : α) : List α → List α → Prop
  | nil : Respelled cr lf [] []
  | keep (a : α) {s s' : List α} (h : Respelled cr lf s s') : Respelled cr lf (a :: s) (a :: s')
  | put {s s' : List α} (h : Respelled cr lf s s') : Respelled cr lf (lf :: s) (cr :: lf :: s')

theorem isPlain_cons_iff {a : α} {s : List α} :
    IsPlain cr lf (a :: s) ↔ ¬(a = cr ∧ s.head? = some lf) ∧ IsPlain cr lf s := by
  cases s with
  | nil => simp [IsPlain, List.infix_cons_iff]
  | cons b s => simp [IsPlain, List.infix_cons_iff, eq_comm]

theorem Respelled.refl (s : List α) : Respelled cr lf s s := by
  induction s with
  | nil => exact .nil
  | cons a s ih => exact .keep a ih

theorem Respelled.append_left (front : List α) {s s' : List α} (h : Respelled cr lf s s') :
    Respelled cr lf (front ++ s) (front ++ s') := by
  induction front with
  | nil => exact h
  | cons a front ih => exact .keep a ih

theorem Respelled.head?_eq {s s' : List α} (h : Respelled cr lf s s')
    (hs' : s'.head? = some lf) : s.head? = some lf := by
  cases h with
  | nil => exact hs'
  | keep a h => exact hs'
  | put h => rfl

variable [DecidableEq α]

/-- The list without every `cr` that stands right before an `lf`. -/
def dropReturns (cr lf : α) : List α → List α
  | [] => []
  | a :: s =>
    if a = cr ∧ s.head? = some lf then dropReturns cr lf s else a :: dropReturns cr lf s

theorem dropReturns_cons_of_head? {s : List α} (h : s.head? = some lf) :
    dropReturns cr lf (cr :: s) = dropReturns cr lf s := by
  rw [dropReturns, if_pos ⟨rfl, h⟩]

theorem dropReturns_cons_of_not {a : α} {s : List α} (h : ¬(a = cr ∧ s.head? = some lf)) :
    dropReturns cr lf (a :: s) = a :: dropReturns cr lf s := by
  rw [dropReturns, if_neg h]

theorem dropReturns_cons_of_ne {a : α} (h : a ≠ cr) (s : List α) :
    dropReturns cr lf (a :: s) = a :: dropReturns cr lf s :=
  dropReturns_cons_of_not fun hboth => h hboth.1

theorem dropReturns_pair (hne : lf ≠ cr) (s : List α) :
    dropReturns cr lf (cr :: lf :: s) = lf :: dropReturns cr lf s := by
  rw [dropReturns_cons_of_head? rfl, dropReturns_cons_of_ne hne]

theorem dropReturns_append {front : List α} (h : cr ∉ front) (s : List α) :
    dropReturns cr lf (front ++ s) = front ++ dropReturns cr lf s := by
  induction front with
  | nil => rfl
  | cons a front ih =>
    rw [List.mem_cons, not_or] at h
    rw [List.cons_append, dropReturns_cons_of_ne (Ne.symm h.1), ih h.2, List.cons_append]

theorem normaliseNewlines_eq (text : List Char) :
    normaliseNewlines text = dropReturns '\r' '\n' text := by
  fun_induction normaliseNewlines text with
  | case1 s ih => rw [dropReturns_pair (by decide), ih]
  | case2 c s hpair ih =>
    rw [dropReturns_cons_of_not, ih]
    rintro ⟨rfl, hs⟩
    obtain ⟨t, rfl⟩ := List.head?_eq_some_iff.1 hs
    exact hpair t rfl rfl
  | case3 => rfl

/-- To put carriage returns into a plain list is undone by taking them out. -/
theorem Respelled.dropReturns_eq {s s' : List α} (hne : lf ≠ cr) (h : Respelled cr lf s s')
    (hs : IsPlain cr lf s) : dropReturns cr lf s' = s := by
  induction h with
  | nil => rfl
  | keep a h ih =>
    rw [isPlain_cons_iff] at hs
    rw [dropReturns_cons_of_not fun hboth => hs.1 ⟨hboth.1, h.head?_eq hboth.2⟩, ih hs.2]
  | put h ih => rw [dropReturns_pair hne, ih (isPlain_cons_iff.1 hs).2]

end Text

namespace Utf8

/-! ## ASCII characters have one form -/

/-- Whatever the character becomes, it is no ASCII character: even the least byte that may come
next makes its number too great. -/
structure Pending.IsLong (p : Pending) : Prop where
  high_le : p.high ≤ 0xBF
  le_least : (if p.more = 0 then 0x80 else 2) ≤ p.bits * 64 + p.low.toNat % 64

/-- The number behind a character, unless the character is zero. -/
theorem eq_toNat_of_ofNat_eq {n : Nat} {c : Char} (h : Char.ofNat n = c) (hc : 0 < c.toNat) :
    n = c.toNat := by
  rw [Char.ofNat] at h
  by_cases hn : n.isValidChar
  · rw [dif_pos hn] at h
    subst h
    rfl
  · rw [dif_neg hn] at h
    subst h
    exact absurd hc (by decide)

theorem isLong_of_lead {b : UInt8} {p : Pending} (h : lead b = .opens p) : p.IsLong := by
  have hE0 : b = 0xE0 ∨ b.toNat ≠ 0xE0 := by
    rw [← UInt8.toNat_inj]
    exact Decidable.em _
  have hF0 : b = 0xF0 ∨ b.toNat ≠ 0xF0 := by
    rw [← UInt8.toNat_inj]
    exact Decidable.em _
  simp only [lead, UInt8.lt_iff_toNat_lt, UInt8.reduceToNat] at h
  split at h
  · cases h
  split at h
  · cases h
  split at h
  · -- two bytes
    cases h
    refine ⟨UInt8.le_refl _, ?_⟩
    simp only [UInt8.reduceToNat, if_true]
    omega
  split at h
  · -- three bytes
    cases h
    refine ⟨by dsimp only; split <;> decide, ?_⟩
    rcases hE0 with rfl | hE0
    · simp
    · dsimp only
      rw [if_neg (by decide)]
      omega
  split at h
  · -- four bytes
    cases h
    refine ⟨by dsimp only; split <;> decide, ?_⟩
    rcases hF0 with rfl | hF0
    · simp
    · dsimp only
      rw [if_neg (by decide)]
      omega
  · cases h

section

variable {p : Pending} {b : UInt8}

theorem step_of_outside (h : ¬(p.low ≤ b ∧ b ≤ p.high)) :
    step (some p) b = (replacement :: (stepFresh b).1, (stepFresh b).2) := by
  simp only [step, if_neg h]

theorem step_of_last (h : p.low ≤ b ∧ b ≤ p.high) (hmore : p.more = 0) :
    step (some p) b = ([Char.ofNat (p.bits * 64 + b.toNat % 64)], none) := by
  simp only [step, if_pos h, hmore]

theorem step_of_middle (h : p.low ≤ b ∧ b ≤ p.high) {more : Nat} (hmore : p.more = more + 1) :
    step (some p) b =
      ([], some ⟨p.bits * 64 + b.toNat % 64, more, 0x80, 0xBF, by decide⟩) := by
  simp only [step, if_pos h, hmore]

/-- Every byte that may come next makes the number as great as the least one does. -/
theorem Pending.IsLong.le_next (hp : p.IsLong) (h : p.low ≤ b ∧ b ≤ p.high) :
    (if p.more = 0 then 0x80 else 2) ≤ p.bits * 64 + b.toNat % 64 := by
  have hascii := p.ascii_lt_low
  have hhigh := hp.high_le
  simp only [UInt8.le_iff_toNat_le, UInt8.reduceToNat] at h hascii hhigh
  exact Nat.le_trans hp.le_least (by omega)

end

/-- Where decoding stands: between characters, or inside one that is no ASCII character. -/
def IsSound (state : Option Pending) : Prop := ∀ p ∈ state, p.IsLong

theorem isSound_none : IsSound none := by
  rintro _ ⟨⟩

theorem isSound_stepFresh (b : UInt8) : IsSound (stepFresh b).2 := by
  intro p hp
  rw [stepFresh] at hp
  split at hp
  · cases hp
  · next q hlead =>
    cases hp
    exact isLong_of_lead hlead
  · cases hp

theorem isSound_step {state : Option Pending} (h : IsSound state) (b : UInt8) :
    IsSound (step state b).2 := by
  cases state with
  | none => exact isSound_stepFresh b
  | some p =>
    have hp := h p rfl
    by_cases hinside : p.low ≤ b ∧ b ≤ p.high
    · have hnext := hp.le_next hinside
      cases hmore : p.more with
      | zero =>
        rw [step_of_last hinside hmore]
        exact isSound_none
      | succ more =>
        rw [step_of_middle hinside hmore]
        rintro _ ⟨⟩
        rw [if_neg (by omega)] at hnext
        refine ⟨UInt8.le_refl _, ?_⟩
        simp only [UInt8.reduceToNat]
        split_ifs <;> omega
    · rw [step_of_outside hinside]
      exact isSound_stepFresh b

theorem toNat_of_mem_stepFresh {b : UInt8} {c : Char} (hc : c ∈ (stepFresh b).1)
    (hpos : 0 < c.toNat) (hascii : c.toNat < 0x80) : b.toNat = c.toNat := by
  rw [stepFresh] at hc
  by_cases hb : b < 0x80
  · rw [lead, if_pos hb, List.mem_singleton] at hc
    exact eq_toNat_of_ofNat_eq hc.symm hpos
  · split at hc
    · next d hlead =>
      rw [lead, if_neg hb] at hlead
      split_ifs at hlead
    · cases hc
    · rw [List.mem_singleton.1 hc] at hascii
      exact absurd hascii (by decide)

/-- **An ASCII character other than zero is put out by its own byte only.** -/
theorem toNat_of_mem_step {state : Option Pending} (h : IsSound state) {b : UInt8} {c : Char}
    (hc : c ∈ (step state b).1) (hpos : 0 < c.toNat) (hascii : c.toNat < 0x80) :
    b.toNat = c.toNat := by
  cases state with
  | none => exact toNat_of_mem_stepFresh hc hpos hascii
  | some p =>
    by_cases hinside : p.low ≤ b ∧ b ≤ p.high
    · have hnext := (h p rfl).le_next hinside
      cases hmore : p.more with
      | zero =>
        rw [step_of_last hinside hmore, List.mem_singleton] at hc
        rw [if_pos hmore, eq_toNat_of_ofNat_eq hc.symm hpos] at hnext
        exact absurd hascii (Nat.not_lt.2 hnext)
      | succ more =>
        rw [step_of_middle hinside hmore] at hc
        cases hc
    · rw [step_of_outside hinside] at hc
      rcases List.mem_cons.1 hc with rfl | hc
      · exact absurd hascii (by decide)
      · exact toNat_of_mem_stepFresh hc hpos hascii

/-! ## Normalising and decoding -/

theorem decodeFrom_cons (state : Option Pending) (b : UInt8) (bytes : List UInt8) :
    decodeFrom state (b :: bytes) = (step state b).1 ++ decodeFrom (step state b).2 bytes := by
  cases state with
  | none => rfl
  | some p => rfl

theorem decodeFrom_of_ascii (state : Option Pending) {b : UInt8} (h : b < 0x80)
    (bytes : List UInt8) :
    decodeFrom state (b :: bytes) = (if state.isSome then [replacement] else []) ++
      Char.ofNat b.toNat :: decodeFrom none bytes := by
  rw [decodeFrom_cons, step_ascii state h, List.append_assoc, List.singleton_append]

/-- A byte that puts out nothing is inside a character. -/
theorem exists_of_step_eq_nil {state : Option Pending} {b : UInt8} (h : (step state b).1 = []) :
    ∃ p, (step state b).2 = some p := by
  cases state with
  | none =>
    change (stepFresh b).1 = [] at h
    change ∃ p, (stepFresh b).2 = some p
    rw [stepFresh] at h ⊢
    cases hlead : lead b with
    | opens p => exact ⟨p, rfl⟩
    | char c | invalid =>
      rw [hlead] at h
      cases h
  | some p =>
    by_cases hinside : p.low ≤ b ∧ b ≤ p.high
    · cases hmore : p.more with
      | zero =>
        rw [step_of_last hinside hmore] at h
        cases h
      | succ more =>
        rw [step_of_middle hinside hmore]
        exact ⟨_, rfl⟩
    · rw [step_of_outside hinside] at h
      cases h

/-- A text begins with a line feed only if the bytes do. -/
theorem head?_of_decodeFrom {state : Option Pending} (h : IsSound state) {bytes : List UInt8}
    (hhead : (decodeFrom state bytes).head? = some '\n') :
    state = none ∧ bytes.head? = some 0x0A := by
  induction bytes generalizing state with
  | nil =>
    cases state with
    | none => cases hhead
    | some p => simp [decodeFrom, replacement] at hhead
  | cons b bytes ih =>
    rw [decodeFrom_cons] at hhead
    cases hout : (step state b).1 with
    | nil =>
      obtain ⟨p, hp⟩ := exists_of_step_eq_nil hout
      rw [hout] at hhead
      have hnone := (ih (isSound_step h b) hhead).1
      rw [hp] at hnone
      cases hnone
    | cons c out =>
      rw [hout, List.cons_append, List.head?_cons, Option.some.injEq] at hhead
      subst hhead
      have hb : b = 0x0A := by
        rw [← UInt8.toNat_inj]
        exact toNat_of_mem_step h (by rw [hout]; exact List.mem_cons_self) (by decide) (by decide)
      subst hb
      refine ⟨?_, rfl⟩
      cases state with
      | none => rfl
      | some p =>
        rw [step_ascii _ (by decide)] at hout
        simp [replacement] at hout

theorem not_mem_step {state : Option Pending} (h : IsSound state) {b : UInt8} (hb : b ≠ 0x0D) :
    '\r' ∉ (step state b).1 := fun hmem =>
  hb (UInt8.toNat_inj.1 (toNat_of_mem_step h hmem (by decide) (by decide)))

theorem dropReturns_decodeFrom {state : Option Pending} (h : IsSound state) (bytes : List UInt8) :
    Text.dropReturns '\r' '\n' (decodeFrom state bytes) =
      decodeFrom state (Text.dropReturns 0x0D 0x0A bytes) := by
  induction bytes generalizing state with
  | nil =>
    cases state with
    | none => rfl
    | some p => rfl
  | cons b bytes ih =>
    by_cases hb : b = 0x0D
    · subst hb
      have hcut : '\r' ∉ if state.isSome then [replacement] else [] := by
        split <;> simp [replacement]
      rw [decodeFrom_of_ascii state (by decide), Text.dropReturns_append hcut]
      by_cases hfeed : bytes.head? = some 0x0A
      · -- the carriage return is dropped, and the line feed ends what it would have ended
        obtain ⟨rest, rfl⟩ := List.head?_eq_some_iff.1 hfeed
        have hrest := ih isSound_none
        have htext : (decodeFrom none (0x0A :: rest)).head? = some '\n' := by
          rw [decodeFrom_of_ascii none (by decide)]
          rfl
        rw [Text.dropReturns_cons_of_ne (by decide)] at hrest
        change _ ++ Text.dropReturns '\r' '\n' ('\r' :: _) = _
        rw [Text.dropReturns_cons_of_head? htext, hrest, Text.dropReturns_pair (by decide),
          decodeFrom_of_ascii none (by decide), decodeFrom_of_ascii state (by decide)]
        rfl
      · have htext : (decodeFrom none bytes).head? ≠ some '\n' := fun hhead =>
          hfeed (head?_of_decodeFrom isSound_none hhead).2
        rw [Text.dropReturns_cons_of_not fun hboth => htext hboth.2, ih isSound_none,
          Text.dropReturns_cons_of_not fun hboth => hfeed hboth.2,
          decodeFrom_of_ascii state (by decide)]
    · rw [decodeFrom_cons, Text.dropReturns_append (not_mem_step h hb), ih (isSound_step h b),
        Text.dropReturns_cons_of_ne hb, decodeFrom_cons]

/-- **Normalising commutes with decoding**, whatever the bytes are. -/
theorem normaliseNewlines_decode (bytes : List UInt8) :
    Text.normaliseNewlines (decode bytes) = decode (Text.dropReturns 0x0D 0x0A bytes) := by
  rw [Text.normaliseNewlines_eq, decode, dropReturns_decodeFrom isSound_none, decode]

/-- To put carriage returns in front of line feeds does not change the text, if there have been no
pairs before. -/
theorem text_of_respelled {data data' : List UInt8} (h : Text.Respelled 0x0D 0x0A data data')
    (hplain : Text.IsPlain 0x0D 0x0A data) :
    Text.normaliseNewlines (decode data') = Text.normaliseNewlines (decode data) := by
  rw [normaliseNewlines_decode, normaliseNewlines_decode, h.dropReturns_eq (by decide) hplain,
    (Text.Respelled.refl data).dropReturns_eq (by decide) hplain]

end Utf8
end ShaderKit
