import ShaderKit.Preprocess.Arguments
import ShaderKit.Preprocess.Macro
import ShaderKit.Preprocess.Worklist

/-!
# Macro expansion

`expand` goes through a list of tokens from the left.  A name that stands for a macro is replaced
by the macro's body — with the arguments, themselves expanded first, in the places of the
parameters — and reading goes on with the replacement, so that what came out of a macro may go into
another one, together with whatever follows.

What came out of a macro never goes into the same one again: every token of a replacement hides the
macro's name, and all that the name itself hid.  That is also why `expand` ends, on every table and
every list.  The *level* of a token is the number of defined names it does not hide; a replacement
lies below the name it replaces (`level_hide_lt`), arguments are taken from the tokens behind it,
and so every call of `expand` is on a list that `Worklist.Sinks` puts below the present one.
-/

set_option autoImplicit false

namespace ShaderKit
namespace Preprocess

/-- What can be wrong with a macro call. -/
inductive ExpansionError where
  | unterminatedArguments (name : List Char)
  | argumentCount (name : List Char) (expected got : Nat)
  deriving DecidableEq, Repr

namespace ExpansionError

def message : ExpansionError → String
  | unterminatedArguments name =>
    s!"Unterminated argument list invoking macro '{String.ofList name}'"
  | argumentCount name expected got =>
    s!"Macro '{String.ofList name}' expects {expected} argument(s), got {got}"

end ExpansionError

/-! ## Hiding names -/

/-- A list of names with one more, if it is not there yet. -/
def addName (names : List (List Char)) (name : List Char) : List (List Char) :=
  if names.contains name then names else names ++ [name]

theorem mem_addName {names : List (List Char)} {name other : List Char} :
    other ∈ addName names name ↔ other ∈ names ∨ other = name := by
  unfold addName
  split
  · next h => exact ⟨Or.inl, fun h' => h'.elim id fun e => e ▸ List.contains_iff_mem.1 h⟩
  · simp

namespace Token

/-- The token, hiding more names. -/
def hide (names : List (List Char)) (t : Token) : Token :=
  { t with hidden := names.foldl addName t.hidden }

theorem mem_hidden_hide {names : List (List Char)} {t : Token} {name : List Char} :
    name ∈ (t.hide names).hidden ↔ name ∈ t.hidden ∨ name ∈ names := by
  simp only [hide]
  generalize t.hidden = hidden
  induction names generalizing hidden with
  | nil => simp
  | cons n names ih => simp [ih, mem_addName, or_assoc]

/-- The names that every token of the replacement of this one hides. -/
def trail (t : Token) : List (List Char) := t.hidden ++ [t.text]

end Token

/-! ## Levels -/

/-- Fewer items pass a test that asks for more, and fails one that the other lets through. -/
theorem countP_lt_countP {α : Type} {p q : α → Bool} {l : List α}
    (hpq : ∀ x ∈ l, p x = true → q x = true) {a : α} (ha : a ∈ l) (hp : ¬ p a = true)
    (hq : q a = true) : l.countP p < l.countP q := by
  induction l with
  | nil => cases ha
  | cons b l ih =>
    have hl : ∀ x ∈ l, p x = true → q x = true := fun x hx => hpq x (List.mem_cons_of_mem _ hx)
    rcases List.mem_cons.1 ha with rfl | ha
    · rw [List.countP_cons_of_neg hp, List.countP_cons_of_pos hq]
      exact Nat.lt_succ_of_le (List.countP_mono_left hl)
    · have := ih hl ha
      have hb := hpq b (by simp)
      rw [List.countP_cons, List.countP_cons]
      by_cases hpb : p b = true
      · simp only [hpb, hb hpb, if_true]; omega
      · simp only [hpb, if_false, Bool.false_eq_true]; split <;> omega

namespace MacroTable

/-- What a token stands for: nothing, unless it is a name that is defined and that it does not
hide. -/
def macroAt? (table : MacroTable) (t : Token) : Option Macro :=
  if t.kind = .identifier && !t.hidden.contains t.text then table.get? t.text else none

/-- The number of defined names that a token does not hide. -/
def level (table : MacroTable) (t : Token) : Nat :=
  table.names.countP fun name => !t.hidden.contains name

theorem macroAt?_eq_some_iff {table : MacroTable} {t : Token} {m : Macro} :
    table.macroAt? t = some m ↔
      t.kind = .identifier ∧ t.text ∉ t.hidden ∧ table.get? t.text = some m := by
  simp [macroAt?, and_assoc]

theorem level_hide_lt {table : MacroTable} {t : Token} {m : Macro}
    (h : table.macroAt? t = some m) (x : Token) :
    table.level (x.hide t.trail) < table.level t := by
  obtain ⟨_, hfree, hget⟩ := macroAt?_eq_some_iff.1 h
  refine countP_lt_countP (fun name _ hx => ?_) (mem_names_of_get? hget) ?_ ?_
  · simp only [Bool.not_eq_true', List.contains_eq_mem, decide_eq_false_iff_not] at hx ⊢
    exact fun hin => hx (Token.mem_hidden_hide.2 (Or.inr (by simp [Token.trail, hin])))
  · simp [Token.mem_hidden_hide, Token.trail]
  · simpa using hfree

end MacroTable

/-! ## Replacements -/

/-- The body of a macro with arguments in the places of its parameters; the first parameter of a
name counts. -/
def substitute (body : List Token) (parameters : List (List Char))
    (arguments : List (List Token)) : List Token :=
  body.flatMap fun t =>
    match (parameters.zip arguments).lookup t.text with
    | some argument => if t.kind = .identifier then argument else [t]
    | none => [t]

theorem sinks_tail {table : MacroTable} {t : Token} {rest kept : List Token}
    (h : kept.Sublist rest) : Worklist.Sinks table.level kept (t :: rest) :=
  ⟨t, rest, [], kept, rfl, rfl, by simp, h⟩

theorem sinks_replacement {table : MacroTable} {t : Token} {m : Macro} {rest kept : List Token}
    (hm : table.macroAt? t = some m) (xs : List Token) (h : kept.Sublist rest) :
    Worklist.Sinks table.level (xs.map (Token.hide t.trail) ++ kept) (t :: rest) :=
  ⟨t, rest, _, kept, rfl, rfl,
    fun x hx => by
      obtain ⟨y, _, rfl⟩ := List.mem_map.1 hx
      exact MacroTable.level_hide_lt hm y,
    h⟩

/-! ## Expansion -/

/-- The tokens with every macro in them expanded, from the left to the right; the first call that
is wrong is the answer otherwise. -/
def expand (table : MacroTable) : List Token → Except ExpansionError (List Token)
  | [] => .ok []
  | t :: rest =>
    match _hm : table.macroAt? t with
    | none => return t :: (← expand table rest)
    | some m =>
      match m.parameters with
      | none => expand table (m.body.map (Token.hide t.trail) ++ rest)
      | some parameters =>
        match _hc : takeArguments rest with
        | .absent => return t :: (← expand table rest)
        | .unterminated => .error (.unterminatedArguments t.text)
        | .complete arguments after =>
          match _ha : matchArguments parameters arguments with
          | .error got => .error (.argumentCount t.text parameters.length got)
          | .ok arguments => do
            let expanded ← arguments.attach.mapM fun ⟨argument, _⟩ => expand table argument
            expand table
              ((substitute m.body parameters expanded).map (Token.hide t.trail) ++ after)
termination_by ts => (Worklist.sinks_wellFounded table.level).wrap ts
decreasing_by
  · exact sinks_tail (List.Sublist.refl _)
  · exact sinks_replacement _hm _ (List.Sublist.refl _)
  · exact sinks_tail (List.Sublist.refl _)
  · exact sinks_tail
      (sublist_of_matchArguments _ha (sublist_of_takeArguments _hc).1 argument (by assumption))
  · exact sinks_replacement _hm _ (sublist_of_takeArguments _hc).2

@[simp] theorem expand_nil (table : MacroTable) : expand table [] = .ok [] := by rw [expand]

/-- What `expand` does with a list that begins with a token, the ways it can go side by side. -/
theorem expand_cons (table : MacroTable) (t : Token) (rest : List Token) :
    expand table (t :: rest) =
      match table.macroAt? t with
      | none => return t :: (← expand table rest)
      | some m =>
        match m.parameters with
        | none => expand table (m.body.map (Token.hide t.trail) ++ rest)
        | some parameters =>
          match takeArguments rest with
          | .absent => return t :: (← expand table rest)
          | .unterminated => .error (.unterminatedArguments t.text)
          | .complete arguments after =>
            match matchArguments parameters arguments with
            | .error got => .error (.argumentCount t.text parameters.length got)
            | .ok arguments =>
              (arguments.mapM (expand table) >>= fun expanded =>
                expand table
                  ((substitute m.body parameters expanded).map (Token.hide t.trail) ++ after)) := by
  have plain : ∀ args : List (List Token),
      (args.attach.mapM fun a => expand table a.1) = args.mapM (expand table) := fun args => by
    rw [List.mapM_subtype (g := expand table) fun _ _ => rfl, List.unattach_attach]
  rw [expand]
  split
  · next h => simp [h]
  · next m h =>
    simp only [h]
    split
    · rfl
    · next parameters hp =>
      split
      · next hc => simp [hc]
      · next hc => simp [hc]
      · next arguments after hc =>
        simp only [hc]
        split
        · next ha => simp [ha]
        · next args ha => simp only [ha, plain]

end Preprocess
end ShaderKit
