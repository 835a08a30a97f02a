import ShaderKit.Proofs.ConditionMeaning
import ShaderKit.Proofs.ConstantSpelling

/-!
# The grammar of conditions

Which lists of tokens are expressions, as a relation that knows nothing of how they are read.
A phrase stands on a level: a whole expression on level 0, the operands and results of binary
operators on levels 1 to 10, and what cannot be taken apart by a binary operator on level 11.  A
phrase of one level is also one of the level before.  The left operand of a binary operator is on
its own level and the right one on the next, which is to say that operators group to the left.

The tables of operators are written out once more here, so that nothing of the grammar hangs on the
`symbol`s and `precedence`s by which expressions are read; that they agree is proved below.
-/

set_option autoImplicit false

namespace ShaderKit
namespace Preprocess

/-- The binary operators of each level. -/
def binaryOperators : Nat → List (String × BinaryOp)
  | 1 => [("||", .or)]
  | 2 => [("&&", .and)]
  | 3 => [("|", .bitOr)]
  | 4 => [("^", .bitXor)]
  | 5 => [("&", .bitAnd)]
  | 6 => [("==", .eq), ("!=", .ne)]
  | 7 => [("<", .lt), (">", .gt), ("<=", .le), (">=", .ge)]
  | 8 => [("<<", .shiftLeft), (">>", .shiftRight)]
  | 9 => [("+", .add), ("-", .sub)]
  | 10 => [("*", .mul), ("/", .div), ("%", .rem)]
  | _ => []

/-- The prefix operators. -/
def prefixOperators : List (String × UnaryOp) :=
  [("!", .not), ("~", .complement), ("-", .negate), ("+", .plus)]

/-- The tokens are an expression of the level, with this tree. -/
inductive Phrase : Nat → List Token → Condition → Prop
  | constant {t : Token} {n : Nat} (ht : t.kind = .number) (hn : IsConstant t.text n) :
      Phrase 11 [t] (.constant n)
  | name {t : Token} (ht : t.kind = .identifier) : Phrase 11 [t] .name
  | paren {left right : Token} {ts : List Token} {e : Condition} (hl : left.isPunctuator "(")
      (h : Phrase 0 ts e) (hr : right.isPunctuator ")") : Phrase 11 (left :: ts ++ [right]) e
  | unary {t : Token} {symbol : String} {op : UnaryOp} {ts : List Token} {e : Condition}
      (hop : (symbol, op) ∈ prefixOperators) (ht : t.isPunctuator symbol) (h : Phrase 11 ts e) :
      Phrase 11 (t :: ts) (.unary op e)
  | binary {level : Nat} {t : Token} {symbol : String} {op : BinaryOp} {ls rs : List Token}
      {l r : Condition} (hop : (symbol, op) ∈ binaryOperators level) (ht : t.isPunctuator symbol)
      (hl : Phrase level ls l) (hr : Phrase (level + 1) rs r) :
      Phrase level (ls ++ t :: rs) (.binary op l r)
  | conditional {mark colon : Token} {ts ys ns : List Token} {test yes no : Condition}
      (ht : Phrase 1 ts test) (hm : mark.isPunctuator "?") (hy : Phrase 0 ys yes)
      (hc : colon.isPunctuator ":") (hn : Phrase 0 ns no) :
      Phrase 0 (ts ++ mark :: ys ++ colon :: ns) (.conditional test yes no)
  | tighter {level : Nat} {ts : List Token} {e : Condition} (hlevel : level < 11)
      (h : Phrase (level + 1) ts e) : Phrase level ts e

/-- A phrase of one level is one of every level before. -/
theorem Phrase.loosen {level least : Nat} {ts : List Token} {e : Condition} (h : Phrase level ts e)
    (hle : least ≤ level) (hlevel : level ≤ 11) : Phrase least ts e := by
  induction level with
  | zero =>
    rw [Nat.le_zero.1 hle]
    exact h
  | succ level ih =>
    rcases Nat.lt_or_ge level least with hlt | hge
    · rw [Nat.le_antisymm hle hlt]
      exact h
    · exact ih (.tighter hlevel h) hge (Nat.le_of_succ_le hlevel)

/-! ## The operators as they are read -/

theorem mem_binaryOperators_iff {level : Nat} {symbol : String} {op : BinaryOp} :
    (symbol, op) ∈ binaryOperators level ↔ symbol = op.symbol ∧ level = op.precedence := by
  constructor
  · intro h
    have hall : ∀ level < 11, ∀ entry ∈ binaryOperators level,
        entry.1 = entry.2.symbol ∧ level = entry.2.precedence := by decide
    rcases Nat.lt_or_ge level 11 with hlt | hge
    · exact hall level hlt _ h
    · obtain ⟨above, rfl⟩ := Nat.exists_eq_add_of_le' hge
      cases h
  · rintro ⟨rfl, rfl⟩
    cases op <;> decide

theorem mem_prefixOperators_iff {symbol : String} {op : UnaryOp} :
    (symbol, op) ∈ prefixOperators ↔ symbol = op.symbol := by
  constructor
  · intro h
    have hall : ∀ entry ∈ prefixOperators, entry.1 = entry.2.symbol := by decide
    exact hall _ h
  · rintro rfl
    cases op <;> decide

theorem BinaryOp.precedence_mem (op : BinaryOp) : 1 ≤ op.precedence ∧ op.precedence ≤ 10 := by
  cases op <;> decide

namespace Token

theorem isPunctuator_iff {t : Token} {p : String} :
    t.isPunctuator p = true ↔ t.kind = .punctuator ∧ t.text = p.toList := by
  rw [isPunctuator, Bool.and_eq_true, decide_eq_true_eq, decide_eq_true_eq]

/-- A token is written in one way. -/
theorem isPunctuator_inj {t : Token} {p q : String} (hp : t.isPunctuator p = true)
    (hq : t.isPunctuator q = true) : p = q := by
  rw [isPunctuator_iff] at hp hq
  exact String.toList_inj.1 (hp.2.symm.trans hq.2)

theorem isPunctuator_eq_false {t : Token} {p q : String} (hp : t.isPunctuator p = true)
    (hne : p ≠ q) : t.isPunctuator q = false :=
  Bool.eq_false_iff.2 fun hq => hne (isPunctuator_inj hp hq)

end Token

/-- Of operators that are written differently, the one that is found is the one that is written. -/
theorem find?_isPunctuator_eq_some_iff {α : Type} {ops : List α} {symbol : α → String}
    (hinj : ∀ a ∈ ops, ∀ b ∈ ops, symbol a = symbol b → a = b) {op : α} (hop : op ∈ ops)
    {t : Token} :
    (ops.find? fun a => t.isPunctuator (symbol a)) = some op ↔
      t.isPunctuator (symbol op) = true := by
  constructor
  · intro h
    have hsome := List.find?_some h
    exact hsome
  · intro h
    cases hfind : ops.find? fun a => t.isPunctuator (symbol a) with
    | none => exact absurd h (List.find?_eq_none.1 hfind op hop)
    | some other =>
      have hsome := List.find?_some hfind
      rw [hinj other (List.mem_of_find?_eq_some hfind) op hop (Token.isPunctuator_inj hsome h)]

theorem BinaryOp.mem_all (op : BinaryOp) : op ∈ all := by
  cases op <;> decide

theorem BinaryOp.ofToken?_eq_some_iff {t : Token} {op : BinaryOp} :
    ofToken? t = some op ↔ t.isPunctuator op.symbol = true :=
  find?_isPunctuator_eq_some_iff (by decide) op.mem_all

theorem UnaryOp.ofToken?_eq_some_iff {t : Token} {op : UnaryOp} :
    ofToken? t = some op ↔ t.isPunctuator op.symbol = true :=
  find?_isPunctuator_eq_some_iff (by decide) (by cases op <;> decide)

/-- Whether a token is a binary operator that binds at least as tightly as `least`. -/
def Continues (least : Nat) (t : Token) : Prop :=
  ∃ op, BinaryOp.ofToken? t = some op ∧ least ≤ op.precedence

/-- An expression of level `least` ends before these tokens. -/
def Stops (least : Nat) (ts : List Token) : Prop := ∀ t ∈ ts.head?, ¬Continues least t

theorem stops_nil (least : Nat) : Stops least [] := nofun

theorem stops_cons_iff {least : Nat} {t : Token} {ts : List Token} :
    Stops least (t :: ts) ↔ ∀ op, BinaryOp.ofToken? t = some op → op.precedence < least := by
  simp [Stops, Continues]

theorem exists_of_not_stops {least : Nat} {ts : List Token} (h : ¬Stops least ts) :
    ∃ t rest op, ts = t :: rest ∧ BinaryOp.ofToken? t = some op ∧ least ≤ op.precedence := by
  cases ts with
  | nil => exact absurd (stops_nil least) h
  | cons t rest =>
    rw [stops_cons_iff, Classical.not_forall] at h
    obtain ⟨op, hop⟩ := h
    rw [Classical.not_imp, Nat.not_lt] at hop
    exact ⟨t, rest, op, rfl, hop.1, hop.2⟩

theorem Stops.mono {least more : Nat} {ts : List Token} (h : Stops least ts) (hle : least ≤ more) :
    Stops more ts :=
  fun t ht ⟨op, hop, hmore⟩ => h t ht ⟨op, hop, Nat.le_trans hle hmore⟩

/-- No operator binds as tightly as what cannot be taken apart. -/
theorem stops_of_lt {least : Nat} (hlt : 10 < least) (ts : List Token) : Stops least ts :=
  fun _ _ ⟨op, _, hle⟩ => absurd (Nat.le_trans hle op.precedence_mem.2) (Nat.not_le.2 hlt)

/-- A mark that is not an operator ends an expression of any binary level. -/
theorem stops_of_isPunctuator {t : Token} {mark : String} (ht : t.isPunctuator mark = true)
    (hmark : ∀ op ∈ BinaryOp.all, op.symbol ≠ mark) (least : Nat) (ts : List Token) :
    Stops least (t :: ts) := by
  rw [stops_cons_iff]
  intro op hop
  exact absurd (Token.isPunctuator_inj (BinaryOp.ofToken?_eq_some_iff.1 hop) ht)
    (hmark op op.mem_all)

end Preprocess
end ShaderKit
