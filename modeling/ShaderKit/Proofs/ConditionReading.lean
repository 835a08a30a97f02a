import ShaderKit.Proofs.ConditionGrammar

/-!
# Reading a condition

Both directions of one statement: `evaluate` gets a value, or a division by zero, from exactly the
tokens that the grammar calls an expression, and it is the one that the tree of the expression has
(`evaluate_correct`).

The readers are first freed of the bound they carry along (`takeConditional` and the others), with
an equation for each way they can go.

* That an expression is read is an induction on its derivation.  A phrase of a binary level is not
  read in one piece: the reader of a looser level may read its first operand only and climb from
  there, so the invariant `ReadAs` speaks of every level up to the phrase's own, and of what comes
  after the phrase.
* That what is read is an expression follows the recursion of the readers.  While climbing, what has
  been read so far is a phrase of some level, and the next operator does not bind more tightly than
  that; so it takes all of the phrase as its left operand.
-/

set_option autoImplicit false

namespace ShaderKit
namespace Preprocess

/-! ## Readers without bounds -/

/-- A value and the tokens left. -/
abbrev Taken := Except ConditionError (Int64 × List Token)

/-- What a reading has come to, without the proof that tokens were used up. -/
def Reading.taken {n : Nat} (r : Reading n) : Int64 × List Token := (r.value, r.rest)

/-- A whole expression, choices between values included. -/
def takeConditional (live : Bool) (ts : List Token) : Taken :=
  (readConditional live ts).map Reading.taken

/-- Operands and the operators between them that bind at least as tightly as the level says. -/
def takeBinary (least : Nat) (live : Bool) (ts : List Token) : Taken :=
  (readBinary least live ts).map Reading.taken

/-- What follows a left operand that has been read. -/
def takeClimb (least : Nat) (live : Bool) (left : Int64) (ts : List Token) : Taken :=
  (climb least live left ts).map Reading.taken

/-- One operand, with the signs in front of it. -/
def takeUnary (live : Bool) (ts : List Token) : Taken := (readUnary live ts).map Reading.taken

/-- The tokens behind a mark that has to come next. -/
def expect (mark : String) : List Token → Except ConditionError (List Token)
  | [] => .error .unexpectedEnd
  | t :: ts => if t.isPunctuator mark then .ok ts else .error (.unexpected t.text)

theorem expect_cons {t : Token} {mark : String} (ht : t.isPunctuator mark = true)
    (ts : List Token) : expect mark (t :: ts) = .ok ts := if_pos ht

theorem takeBinary_eq (least : Nat) (live : Bool) (ts : List Token) :
    takeBinary least live ts =
      takeUnary live ts >>= fun left => takeClimb least live left.1 left.2 := by
  rw [takeBinary, takeUnary, readBinary]
  cases readUnary live ts with
  | error e => rfl
  | ok left =>
    change Except.map _ (climb least live left.value left.rest >>= _) =
      takeClimb least live left.value left.rest
    rw [takeClimb]
    cases climb least live left.value left.rest with
    | error e => rfl
    | ok all => rfl

theorem takeClimb_of_stops {least : Nat} {ts : List Token} (h : Stops least ts) (live : Bool)
    (left : Int64) : takeClimb least live left ts = .ok (left, ts) := by
  rw [takeClimb]
  cases ts with
  | nil =>
    rw [climb]
    rfl
  | cons t ts =>
    rw [climb]
    cases hop : BinaryOp.ofToken? t with
    | none => rfl
    | some op =>
      change Except.map _ (if op.precedence < least then _ else _) = _
      rw [if_pos (stops_cons_iff.1 h op hop)]
      rfl

theorem takeClimb_cons {least : Nat} {t : Token} {op : BinaryOp}
    (hop : BinaryOp.ofToken? t = some op) (hle : least ≤ op.precedence) (live : Bool)
    (left : Int64) (ts : List Token) :
    takeClimb least live left (t :: ts) =
      (takeBinary (op.precedence + 1) (live && op.needsRight left) ts >>= fun right =>
        operate op live left right.1 >>= fun value => takeClimb least live value right.2) := by
  rw [takeClimb, climb, hop]
  change Except.map _ (if op.precedence < least then _ else _) = _
  rw [if_neg (Nat.not_lt.2 hle), takeBinary]
  cases readBinary (op.precedence + 1) (live && op.needsRight left) ts with
  | error e => rfl
  | ok right =>
    change Except.map _ (operate op live left right.value >>= _) =
      operate op live left right.value >>= _
    cases operate op live left right.value with
    | error e => rfl
    | ok value =>
      change Except.map _ (climb least live value right.rest >>= _) =
        takeClimb least live value right.rest
      rw [takeClimb]
      cases climb least live value right.rest with
      | error e => rfl
      | ok all => rfl

theorem takeUnary_nil (live : Bool) : takeUnary live [] = .error .unexpectedEnd := by
  rw [takeUnary, readUnary]
  rfl

theorem takeUnary_number {t : Token} (ht : t.kind = .number) (live : Bool) (ts : List Token) :
    takeUnary live (t :: ts) =
      match constantValue? t.text with
      | some value => .ok (value, ts)
      | none => .error (.badConstant t.text) := by
  rw [takeUnary, readUnary, ht]
  cases constantValue? t.text with
  | some value => rfl
  | none => rfl

theorem takeUnary_identifier {t : Token} (ht : t.kind = .identifier) (live : Bool)
    (ts : List Token) : takeUnary live (t :: ts) = .ok (0, ts) := by
  rw [takeUnary, readUnary, ht]
  rfl

theorem takeUnary_paren {t : Token} (ht : t.isPunctuator "(" = true) (live : Bool)
    (ts : List Token) :
    takeUnary live (t :: ts) =
      (takeConditional live ts >>= fun inner =>
        expect ")" inner.2 >>= fun after => .ok (inner.1, after)) := by
  rw [takeUnary, readUnary, (Token.isPunctuator_iff.1 ht).1]
  change Except.map _ (if t.isPunctuator "(" = true then _ else _) = _
  rw [if_pos ht, takeConditional]
  rcases readConditional live ts with e | ⟨value, _ | ⟨close, after⟩, hlt⟩
  · rfl
  · rfl
  · change Except.map _ (if close.isPunctuator ")" = true then _ else _) =
      (if close.isPunctuator ")" = true then _ else _) >>= _
    by_cases hclose : close.isPunctuator ")" = true
    · rw [if_pos hclose, if_pos hclose]
      rfl
    · rw [if_neg hclose, if_neg hclose]
      rfl

theorem takeUnary_operator {t : Token} {op : UnaryOp} (ht : t.isPunctuator op.symbol = true)
    (live : Bool) (ts : List Token) :
    takeUnary live (t :: ts) =
      (takeUnary live ts >>= fun operand => .ok (op.eval operand.1, operand.2)) := by
  have hparen : t.isPunctuator "(" = false :=
    Token.isPunctuator_eq_false ht (by cases op <;> decide)
  rw [takeUnary, readUnary, (Token.isPunctuator_iff.1 ht).1]
  change Except.map _ (if t.isPunctuator "(" = true then _ else _) = _
  rw [if_neg (Bool.eq_false_iff.1 hparen), UnaryOp.ofToken?_eq_some_iff.2 ht, takeUnary]
  cases readUnary live ts with
  | error e => rfl
  | ok operand => rfl

theorem takeUnary_of_none {t : Token} (hkind : t.kind = .punctuator)
    (hparen : t.isPunctuator "(" = false) (hop : UnaryOp.ofToken? t = none) (live : Bool)
    (ts : List Token) : takeUnary live (t :: ts) = .error (.unexpected t.text) := by
  rw [takeUnary, readUnary, hkind]
  change Except.map _ (if t.isPunctuator "(" = true then _ else _) = _
  rw [if_neg (Bool.eq_false_iff.1 hparen), hop]
  rfl

theorem takeUnary_of_kind {t : Token} (hkind : t.kind = .literal ∨ t.kind = .space) (live : Bool)
    (ts : List Token) : takeUnary live (t :: ts) = .error (.unexpected t.text) := by
  rcases hkind with hkind | hkind
  · rw [takeUnary, readUnary, hkind]
    rfl
  · rw [takeUnary, readUnary, hkind]
    rfl

theorem takeConditional_eq (live : Bool) (ts : List Token) :
    takeConditional live ts =
      (takeBinary 1 live ts >>= fun test =>
        match test.2 with
        | [] => .ok test
        | mark :: rest =>
          if mark.isPunctuator "?" then
            takeConditional (live && test.1 ≠ 0) rest >>= fun yes =>
              expect ":" yes.2 >>= fun afterColon =>
                takeConditional (live && test.1 = 0) afterColon >>= fun no =>
                  .ok (if test.1 ≠ 0 then yes.1 else no.1, no.2)
          else .ok test) := by
  rw [takeConditional, readConditional, takeBinary]
  rcases readBinary 1 live ts with e | ⟨value, _ | ⟨mark, rest⟩, hlt⟩
  · rfl
  · rfl
  · change Except.map _ (if mark.isPunctuator "?" = true then _ else _) =
      if mark.isPunctuator "?" = true then _ else _
    by_cases hmark : mark.isPunctuator "?" = true
    · rw [if_pos hmark, if_pos hmark, takeConditional]
      change Except.map _ (readConditional (live && value ≠ 0) rest >>= _) =
        Except.map _ (readConditional (live && value ≠ 0) rest) >>= _
      rcases readConditional (live && value ≠ 0) rest with e | ⟨yes, _ | ⟨colon, after⟩, hlt'⟩
      · rfl
      · rfl
      · change Except.map _ (if colon.isPunctuator ":" = true then _ else _) =
          (if colon.isPunctuator ":" = true then _ else _) >>= _
        by_cases hcolon : colon.isPunctuator ":" = true
        · rw [if_pos hcolon, if_pos hcolon]
          change _ = takeConditional (live && value = 0) after >>= _
          rw [takeConditional]
          cases readConditional (live && value = 0) after with
          | error e => rfl
          | ok no => rfl
        · rw [if_neg hcolon, if_neg hcolon]
          rfl
    · rw [if_neg hmark, if_neg hmark]
      rfl

/-! ## An expression is read to its value -/

/-- A whole expression ends before these tokens. -/
def Closes (ts : List Token) : Prop := Stops 1 ts ∧ ∀ t ∈ ts.head?, t.isPunctuator "?" = false

theorem closes_nil : Closes [] := ⟨stops_nil 1, nofun⟩

theorem closes_of_isPunctuator {t : Token} {mark : String} (ht : t.isPunctuator mark = true)
    (hmark : ∀ op ∈ BinaryOp.all, op.symbol ≠ mark) (hne : mark ≠ "?") (ts : List Token) :
    Closes (t :: ts) := by
  refine ⟨stops_of_isPunctuator ht hmark 1 ts, ?_⟩
  rintro u ⟨⟩
  exact Token.isPunctuator_eq_false ht hne

/-- The tokens are read as the expression where an operand is expected. -/
def ReadAsOperand (used : List Token) (e : Condition) : Prop :=
  ∀ live rest, takeUnary live (used ++ rest) = e.run live >>= fun v => .ok (v, rest)

/-- The tokens are read as the expression where one of the level is expected, whatever follows
that is not part of it; a reader of a looser level goes on from there. -/
def ReadAs (used : List Token) (e : Condition) : Nat → Prop
  | 0 => ∀ live rest, Closes rest →
      takeConditional live (used ++ rest) = e.run live >>= fun v => .ok (v, rest)
  | level + 1 => ∀ least ≤ level + 1, ∀ live rest, Stops (level + 2) rest →
      takeBinary least live (used ++ rest) = e.run live >>= fun v => takeClimb least live v rest

theorem ReadAsOperand.readAs {used : List Token} {e : Condition} (h : ReadAsOperand used e) :
    ReadAs used e 11 := by
  intro least _ live rest _
  rw [takeBinary_eq, h live rest]
  cases e.run live with
  | error err => rfl
  | ok v => rfl

/-- Where nothing follows on the level, the reader of the level stops after the expression. -/
theorem ReadAs.takeBinary_eq {used : List Token} {e : Condition} {level : Nat}
    (h : ReadAs used e (level + 1)) {rest : List Token} (hrest : Stops (level + 1) rest)
    (live : Bool) :
    takeBinary (level + 1) live (used ++ rest) = e.run live >>= fun v => .ok (v, rest) := by
  rw [h (level + 1) (Nat.le_refl _) live rest (hrest.mono (Nat.le_succ _))]
  cases e.run live with
  | error err => rfl
  | ok v => exact takeClimb_of_stops hrest live v

theorem readAsOperand_constant {t : Token} {n : Nat} (ht : t.kind = .number)
    (hn : IsConstant t.text n) : ReadAsOperand [t] (.constant n) := by
  intro live rest
  rw [List.singleton_append, takeUnary_number ht, constantValue?_eq_some_iff.2 ⟨n, hn, rfl⟩]
  rfl

theorem readAsOperand_name {t : Token} (ht : t.kind = .identifier) : ReadAsOperand [t] .name := by
  intro live rest
  rw [List.singleton_append, takeUnary_identifier ht]
  rfl

theorem readAsOperand_paren {left right : Token} {ts : List Token} {e : Condition}
    (hl : left.isPunctuator "(" = true) (h : ReadAs ts e 0) (hr : right.isPunctuator ")" = true) :
    ReadAsOperand (left :: ts ++ [right]) e := by
  intro live rest
  have hinner := h live (right :: rest) (closes_of_isPunctuator hr (by decide) (by decide) rest)
  rw [List.append_assoc, List.singleton_append, List.cons_append, takeUnary_paren hl, hinner]
  cases e.run live with
  | error err => rfl
  | ok v =>
    change (expect ")" (right :: rest) >>= fun after => .ok (v, after)) = _
    rw [expect_cons hr]
    rfl

theorem readAsOperand_unary {t : Token} {symbol : String} {op : UnaryOp} {ts : List Token}
    {e : Condition} (hop : (symbol, op) ∈ prefixOperators) (ht : t.isPunctuator symbol = true)
    (h : ReadAsOperand ts e) : ReadAsOperand (t :: ts) (.unary op e) := by
  rw [mem_prefixOperators_iff.1 hop] at ht
  intro live rest
  rw [List.cons_append, takeUnary_operator ht, h live rest, Condition.run]
  cases e.run live with
  | error err => rfl
  | ok v => rfl

theorem readAs_binary {level : Nat} {t : Token} {symbol : String} {op : BinaryOp}
    {ls rs : List Token} {l r : Condition} (hop : (symbol, op) ∈ binaryOperators level)
    (ht : t.isPunctuator symbol = true) (hl : ReadAs ls l level) (hr : ReadAs rs r (level + 1)) :
    ReadAs (ls ++ t :: rs) (.binary op l r) level := by
  obtain ⟨rfl, hlevel⟩ := mem_binaryOperators_iff.1 hop
  have hfound := BinaryOp.ofToken?_eq_some_iff.2 ht
  cases level with
  | zero => exact absurd hlevel (Nat.ne_of_lt op.precedence_mem.1)
  | succ level =>
    intro least hleast live rest hrest
    have hstops : Stops (level + 2) (t :: (rs ++ rest)) := by
      rw [stops_cons_iff]
      intro other hother
      rw [hfound] at hother
      cases hother
      omega
    rw [List.append_assoc, List.cons_append, hl least hleast live _ hstops, Condition.run]
    cases l.run live with
    | error err => rfl
    | ok a =>
      change takeClimb least live a (t :: (rs ++ rest)) =
        ((r.run (live && op.needsRight a) >>= fun b => operate op live a b) >>= _)
      rw [takeClimb_cons hfound (hlevel ▸ hleast), ← hlevel,
        ReadAs.takeBinary_eq hr hrest (live && op.needsRight a)]
      cases r.run (live && op.needsRight a) with
      | error err => rfl
      | ok b => rfl

theorem readAs_conditional {mark colon : Token} {ts ys ns : List Token} {test yes no : Condition}
    (ht : ReadAs ts test 1) (hm : mark.isPunctuator "?" = true) (hy : ReadAs ys yes 0)
    (hc : colon.isPunctuator ":" = true) (hn : ReadAs ns no 0) :
    ReadAs (ts ++ mark :: ys ++ colon :: ns) (.conditional test yes no) 0 := by
  intro live rest hrest
  have hmark := stops_of_isPunctuator hm (by decide) 1 (ys ++ colon :: (ns ++ rest))
  have hcolon := closes_of_isPunctuator hc (by decide) (by decide) (ns ++ rest)
  have hassoc : ts ++ mark :: ys ++ colon :: ns ++ rest =
      ts ++ mark :: (ys ++ colon :: (ns ++ rest)) := by simp
  rw [hassoc, takeConditional_eq, ReadAs.takeBinary_eq ht hmark live, Condition.run]
  cases test.run live with
  | error err => rfl
  | ok v =>
    change (if mark.isPunctuator "?" = true then
      takeConditional (live && v ≠ 0) (ys ++ colon :: (ns ++ rest)) >>= _ else _) =
        ((yes.run (live && v ≠ 0) >>= _) >>= _)
    rw [if_pos hm, hy _ _ hcolon]
    cases yes.run (live && v ≠ 0) with
    | error err => rfl
    | ok a =>
      change (expect ":" (colon :: (ns ++ rest)) >>= fun after =>
        takeConditional (live && v = 0) after >>= _) = ((no.run (live && v = 0) >>= _) >>= _)
      rw [expect_cons hc]
      change (takeConditional (live && v = 0) (ns ++ rest) >>= _) = _
      rw [hn _ _ hrest]
      cases no.run (live && v = 0) with
      | error err => rfl
      | ok b => rfl

theorem readAs_tighter {level : Nat} {ts : List Token} {e : Condition}
    (h : ReadAs ts e (level + 1)) : ReadAs ts e level := by
  cases level with
  | zero =>
    intro live rest hrest
    rw [takeConditional_eq, ReadAs.takeBinary_eq h hrest.1 live]
    cases e.run live with
    | error err => rfl
    | ok v =>
      cases rest with
      | nil => rfl
      | cons t rest =>
        change (if t.isPunctuator "?" = true then _ else _) = _
        rw [if_neg (Bool.eq_false_iff.1 (hrest.2 t rfl))]
        rfl
  | succ level =>
    intro least hleast live rest hrest
    exact h least (Nat.le_succ_of_le hleast) live rest (hrest.mono (Nat.le_succ _))

/-- **Every expression is read**, and read to what evaluating its tree gives. -/
theorem Phrase.readAs {level : Nat} {used : List Token} {e : Condition}
    (h : Phrase level used e) : ReadAs used e level ∧ (level = 11 → ReadAsOperand used e) := by
  induction h with
  | constant ht hn =>
    have hread := readAsOperand_constant ht hn
    exact ⟨hread.readAs, fun _ => hread⟩
  | name ht =>
    have hread := readAsOperand_name ht
    exact ⟨hread.readAs, fun _ => hread⟩
  | paren hl h hr ih =>
    have hread := readAsOperand_paren hl ih.1 hr
    exact ⟨hread.readAs, fun _ => hread⟩
  | unary hop ht h ih =>
    have hread := readAsOperand_unary hop ht (ih.2 rfl)
    exact ⟨hread.readAs, fun _ => hread⟩
  | @binary level t symbol op ls rs l r hop ht hl hr ihl ihr =>
    refine ⟨readAs_binary hop ht ihl.1 ihr.1, fun hlevel => ?_⟩
    -- no operator is on the level of operands
    subst hlevel
    cases hop
  | conditional ht hm hy hc hn iht ihy ihn =>
    exact ⟨readAs_conditional iht.1 hm ihy.1 hc ihn.1, nofun⟩
  | tighter hlevel h ih =>
    exact ⟨readAs_tighter ih.1, fun heq => absurd heq (Nat.ne_of_lt hlevel)⟩

/-! ## What is read is an expression -/

theorem exists_of_bind_eq_ok {α β : Type} {x : Except ConditionError α}
    {f : α → Except ConditionError β} {b : β} (h : x >>= f = .ok b) :
    ∃ a, x = .ok a ∧ f a = .ok b := by
  cases x with
  | error e => cases h
  | ok a => exact ⟨a, rfl, h⟩

theorem exists_of_expect {mark : String} {ts after : List Token} (h : expect mark ts = .ok after) :
    ∃ t, ts = t :: after ∧ t.isPunctuator mark = true := by
  cases ts with
  | nil => cases h
  | cons t ts =>
    by_cases ht : t.isPunctuator mark = true
    · rw [expect_cons ht] at h
      cases h
      exact ⟨t, rfl, ht⟩
    · rw [expect, if_neg ht] at h
      cases h

theorem length_lt_of_taken {n : Nat} {r : Except ConditionError (Reading n)} {v : Int64}
    {rest : List Token} (h : r.map Reading.taken = .ok (v, rest)) : rest.length < n := by
  cases r with
  | error e => cases h
  | ok r =>
    cases h
    exact r.shorter

mutual

theorem exists_phrase_of_takeConditional {live : Bool} {ts : List Token} {v : Int64}
    {rest : List Token} (h : takeConditional live ts = .ok (v, rest)) :
    ∃ used e, ts = used ++ rest ∧ Phrase 0 used e := by
  rw [takeConditional_eq] at h
  obtain ⟨⟨value, mid⟩, htest, harms⟩ := exists_of_bind_eq_ok h
  have hmid := length_lt_of_taken htest
  obtain ⟨used, test, hts, hphrase, _⟩ := exists_phrase_of_takeBinary (by decide) htest
  cases mid with
  | nil =>
    cases harms
    exact ⟨used, test, hts, .tighter (by decide) hphrase⟩
  | cons mark after =>
    change (if mark.isPunctuator "?" = true then _ else _) = _ at harms
    by_cases hmark : mark.isPunctuator "?" = true
    · rw [if_pos hmark] at harms
      obtain ⟨⟨a, middle⟩, hyes, harms⟩ := exists_of_bind_eq_ok harms
      obtain ⟨afterColon, hcolon, harms⟩ := exists_of_bind_eq_ok harms
      obtain ⟨⟨b, last⟩, hno, harms⟩ := exists_of_bind_eq_ok harms
      cases harms
      have hmiddle := length_lt_of_taken hyes
      obtain ⟨ys, yes, hafter, hy⟩ := exists_phrase_of_takeConditional hyes
      obtain ⟨colon, hcolons, hc⟩ := exists_of_expect hcolon
      change middle = colon :: afterColon at hcolons
      rw [hcolons, List.length_cons] at hmiddle
      rw [List.length_cons] at hmid
      obtain ⟨ns, no, hlast, hn⟩ := exists_phrase_of_takeConditional hno
      refine ⟨used ++ mark :: ys ++ colon :: ns, .conditional test yes no, ?_,
        .conditional hphrase hmark hy hc hn⟩
      rw [hts, hafter, hcolons, hlast]
      simp
    · rw [if_neg hmark] at harms
      cases harms
      exact ⟨used, test, hts, .tighter (by decide) hphrase⟩
termination_by (ts.length, 3)

theorem exists_phrase_of_takeBinary {least : Nat} (hleast : least ≤ 11) {live : Bool}
    {ts : List Token} {v : Int64} {rest : List Token}
    (h : takeBinary least live ts = .ok (v, rest)) :
    ∃ used e, ts = used ++ rest ∧ Phrase least used e ∧ Stops least rest := by
  rw [takeBinary_eq] at h
  obtain ⟨⟨left, mid⟩, hleft, hclimb⟩ := exists_of_bind_eq_ok h
  have hmid := length_lt_of_taken hleft
  obtain ⟨ls, l, hts, hl⟩ := exists_phrase_of_takeUnary hleft
  obtain ⟨used, e, hused, he, hstops⟩ :=
    exists_phrase_of_takeClimb hleast (Nat.le_refl 11) hl (stops_of_lt (by decide) mid) hclimb
  refine ⟨ls ++ used, e, ?_, he, hstops⟩
  rw [hts, hused, List.append_assoc]
termination_by (ts.length, 2)

theorem exists_phrase_of_takeClimb {least level : Nat} (hle : least ≤ level) (hlevel : level ≤ 11)
    {ls : List Token} {l : Condition} (hl : Phrase level ls l) {ts : List Token}
    (hs : Stops (level + 1) ts) {live : Bool} {left v : Int64} {rest : List Token}
    (h : takeClimb least live left ts = .ok (v, rest)) :
    ∃ used e, ts = used ++ rest ∧ Phrase least (ls ++ used) e ∧ Stops least rest := by
  by_cases hstops : Stops least ts
  · rw [takeClimb_of_stops hstops] at h
    cases h
    refine ⟨[], l, rfl, ?_, hstops⟩
    rw [List.append_nil]
    exact hl.loosen hle hlevel
  · obtain ⟨t, after, op, hts, hop, hprec⟩ := exists_of_not_stops hstops
    subst hts
    rw [takeClimb_cons hop hprec] at h
    obtain ⟨⟨b, mid⟩, hright, hrest⟩ := exists_of_bind_eq_ok h
    obtain ⟨value, _, hclimb⟩ := exists_of_bind_eq_ok hrest
    have hmid := length_lt_of_taken hright
    have hten := op.precedence_mem.2
    obtain ⟨rs, r, hafter, hr, hnext⟩ := exists_phrase_of_takeBinary (by omega) hright
    -- the operator takes all that was read for its left operand
    have hop' : op.precedence ≤ level := Nat.le_of_lt_succ (stops_cons_iff.1 hs op hop)
    have hbinary : Phrase op.precedence (ls ++ t :: rs) (.binary op l r) :=
      .binary (mem_binaryOperators_iff.2 ⟨rfl, rfl⟩) (BinaryOp.ofToken?_eq_some_iff.1 hop)
        (hl.loosen hop' hlevel) hr
    obtain ⟨used, e, hmid', he, hstop⟩ :=
      exists_phrase_of_takeClimb hprec (by omega) hbinary hnext hclimb
    refine ⟨t :: rs ++ used, e, ?_, ?_, hstop⟩
    · rw [hafter, hmid', List.cons_append, List.cons_append, List.append_assoc]
    · rw [← List.append_assoc]
      exact he
termination_by (ts.length, 1)

theorem exists_phrase_of_takeUnary {live : Bool} {ts : List Token} {v : Int64}
    {rest : List Token} (h : takeUnary live ts = .ok (v, rest)) :
    ∃ used e, ts = used ++ rest ∧ Phrase 11 used e := by
  cases ts with
  | nil =>
    rw [takeUnary_nil] at h
    cases h
  | cons t ts =>
    cases hkind : t.kind with
    | number =>
      rw [takeUnary_number hkind] at h
      cases hvalue : constantValue? t.text with
      | none =>
        rw [hvalue] at h
        cases h
      | some value =>
        rw [hvalue] at h
        cases h
        obtain ⟨n, hn, _⟩ := constantValue?_eq_some_iff.1 hvalue
        exact ⟨[t], .constant n, rfl, .constant hkind hn⟩
    | identifier =>
      rw [takeUnary_identifier hkind] at h
      cases h
      exact ⟨[t], .name, rfl, .name hkind⟩
    | punctuator =>
      by_cases hparen : t.isPunctuator "(" = true
      · rw [takeUnary_paren hparen] at h
        obtain ⟨⟨inner, mid⟩, hinner, hrest⟩ := exists_of_bind_eq_ok h
        obtain ⟨after, hclose, hrest⟩ := exists_of_bind_eq_ok hrest
        cases hrest
        obtain ⟨used, e, hts, he⟩ := exists_phrase_of_takeConditional hinner
        obtain ⟨close, hmid, hc⟩ := exists_of_expect hclose
        refine ⟨t :: used ++ [close], e, ?_, .paren hparen he hc⟩
        change mid = close :: rest at hmid
        rw [hts, hmid]
        simp
      · cases hop : UnaryOp.ofToken? t with
        | none =>
          rw [takeUnary_of_none hkind (Bool.eq_false_iff.2 hparen) hop] at h
          cases h
        | some op =>
          have ht := UnaryOp.ofToken?_eq_some_iff.1 hop
          rw [takeUnary_operator ht] at h
          obtain ⟨⟨operand, mid⟩, hoperand, hrest⟩ := exists_of_bind_eq_ok h
          cases hrest
          obtain ⟨used, e, hts, he⟩ := exists_phrase_of_takeUnary hoperand
          refine ⟨t :: used, .unary op e, ?_,
            .unary (mem_prefixOperators_iff.2 rfl) ht he⟩
          rw [hts, List.cons_append]
    | literal =>
      rw [takeUnary_of_kind (Or.inl hkind)] at h
      cases h
    | space =>
      rw [takeUnary_of_kind (Or.inr hkind)] at h
      cases h
termination_by (ts.length, 0)

end

/-! ## Whole conditions -/

/-- The tokens, spaces aside, are an expression with this tree. -/
def IsExpression (ts : List Token) (e : Condition) : Prop :=
  Phrase 0 (ts.filter fun t => !t.isSpace) e

theorem Phrase.ne_nil {level : Nat} {ts : List Token} {e : Condition} (h : Phrase level ts e) :
    ts ≠ [] := by
  induction h with
  | constant ht hn => exact List.cons_ne_nil _ _
  | name ht => exact List.cons_ne_nil _ _
  | paren hl h hr ih => exact List.cons_ne_nil _ _
  | unary hop ht h ih => exact List.cons_ne_nil _ _
  | binary hop ht hl hr ihl ihr => exact List.append_ne_nil_of_left_ne_nil ihl _
  | conditional ht hm hy hc hn iht ihy ihn =>
    exact List.append_ne_nil_of_left_ne_nil (List.append_ne_nil_of_left_ne_nil iht _) _
  | tighter hlevel h ih => exact ih

theorem evaluate_eq {ts : List Token} (hne : (ts.filter fun t => !t.isSpace) ≠ []) :
    evaluate ts = (takeConditional true (ts.filter fun t => !t.isSpace) >>= fun r =>
      match r.2 with
      | [] => .ok r.1
      | extra :: _ => .error (.unexpected extra.text)) := by
  rw [evaluate]
  cases hfilter : ts.filter fun t => !t.isSpace with
  | nil => exact absurd hfilter hne
  | cons t rest =>
    change (readConditional true (t :: rest) >>= _) = _
    rw [takeConditional]
    rcases readConditional true (t :: rest) with e | ⟨value, _ | ⟨extra, after⟩, hlt⟩
    · rfl
    · rfl
    · rfl

/-- An expression gets what evaluating all of its tree gives. -/
theorem IsExpression.evaluate_eq_run {ts : List Token} {e : Condition} (he : IsExpression ts e) :
    evaluate ts = e.run true := by
  have hread := he.readAs.1 true [] closes_nil
  rw [List.append_nil] at hread
  rw [evaluate_eq he.ne_nil, hread]
  cases e.run true with
  | error err => rfl
  | ok v => rfl

/-- What gets a value is an expression. -/
theorem exists_isExpression {ts : List Token} {v : Int64} (hv : evaluate ts = .ok v) :
    ∃ e, IsExpression ts e := by
  have hne : (ts.filter fun t => !t.isSpace) ≠ [] := by
    intro hnil
    rw [evaluate, hnil] at hv
    cases hv
  rw [evaluate_eq hne] at hv
  obtain ⟨⟨value, rest⟩, hread, hrest⟩ := exists_of_bind_eq_ok hv
  obtain ⟨used, e, hts, he⟩ := exists_phrase_of_takeConditional hread
  cases rest with
  | cons extra after => cases hrest
  | nil =>
    rw [List.append_nil] at hts
    refine ⟨e, ?_⟩
    rw [IsExpression, hts]
    exact he

/-- **Conditions are evaluated as the grammar and its meaning say.**  Where the tokens are an
expression, the result is its value, or a division by zero if it comes to one; and tokens that get
a value are an expression with that value. -/
theorem evaluate_correct (ts : List Token) :
    (∀ e, IsExpression ts e → (evaluate ts).map Int64.toInt = Condition.verdict e.value?) ∧
      ∀ v, evaluate ts = .ok v → ∃ e, IsExpression ts e ∧ e.value? = some v.toInt := by
  refine ⟨fun e he => ?_, fun v hv => ?_⟩
  · rw [he.evaluate_eq_run]
    exact e.map_toInt_run
  · obtain ⟨e, he⟩ := exists_isExpression hv
    have hvalue := e.map_toInt_run
    rw [← he.evaluate_eq_run, hv] at hvalue
    rcases Condition.eq_ok_or_eq_error hvalue with ⟨w, hw, hsome⟩ | ⟨herror, _⟩
    · cases hw
      exact ⟨e, he, hsome⟩
    · cases herror

/-- The tokens of `0 && 1 / 0`. -/
def guardedDivision : List Token :=
  [⟨.number, "0".toList, []⟩, ⟨.space, " ".toList, []⟩, ⟨.punctuator, "&&".toList, []⟩,
   ⟨.space, " ".toList, []⟩, ⟨.number, "1".toList, []⟩, ⟨.space, " ".toList, []⟩,
   ⟨.punctuator, "/".toList, []⟩, ⟨.space, " ".toList, []⟩, ⟨.number, "0".toList, []⟩]

/-- Behind a false `&&`, dividing by zero does no harm. -/
theorem evaluate_correct_guardedDivision :
    (evaluate guardedDivision).map Int64.toInt = .ok 0 ∧
      ∃ e, IsExpression guardedDivision e ∧ e.value? = some 0 := by
  have hquotient : Phrase 10 _ (.binary .div (.constant 1) (.constant 0)) :=
    .binary (t := ⟨.punctuator, "/".toList, []⟩) (mem_binaryOperators_iff.2 ⟨rfl, rfl⟩) rfl
      (.tighter (by decide) (.constant (t := ⟨.number, "1".toList, []⟩) rfl isConstant_one))
      (.constant (t := ⟨.number, "0".toList, []⟩) rfl isConstant_zero)
  have hconjunction : Phrase 2 _ (.binary .and (.constant 0) _) :=
    .binary (t := ⟨.punctuator, "&&".toList, []⟩) (mem_binaryOperators_iff.2 ⟨rfl, rfl⟩) rfl
      ((Phrase.constant (t := ⟨.number, "0".toList, []⟩) rfl isConstant_zero).loosen (by decide)
        (by decide))
      (hquotient.loosen (by decide) (by decide))
  have hexpr : IsExpression guardedDivision _ := hconjunction.loosen (Nat.zero_le 2) (by decide)
  have hvalue := (evaluate_correct guardedDivision).1 _ hexpr
  exact ⟨hvalue, _, hexpr, by decide⟩

end Preprocess
end ShaderKit
