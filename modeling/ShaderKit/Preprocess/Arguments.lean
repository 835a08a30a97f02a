import ShaderKit.Preprocess.Token

/-!
# Arguments of a macro call

A call of a function-like macro is the name, then an argument list in parentheses; blanks may stand
between the two.  `takeArguments` reads such a list off the front of the tokens that follow a name.
The arguments are what the commas separate that stand inside no further parentheses, so there is
always at least one of them, if only an empty one.

`matchArguments` compares the list with the parameters: blanks around an argument do not count, and
a single empty argument is none at all for a macro without parameters.

What is read is a part of what was there, and the two `sublist` lemmas say so.  This is what
expansion needs in order to end.
-/

set_option autoImplicit false

namespace ShaderKit
namespace Preprocess

/-- What follows the name of a function-like macro. -/
inductive ArgumentList where
  /-- No opening parenthesis: the name is not a call. -/
  | absent
  /-- A parenthesis that is never closed. -/
  | unterminated
  /-- The arguments, and the tokens after the closing parenthesis. -/
  | complete (arguments : List (List Token)) (rest : List Token)
  deriving DecidableEq, Repr

namespace ArgumentList

/-- Puts a token in front of the first argument. -/
def push (t : Token) : ArgumentList → ArgumentList
  | complete (a :: as) rest => complete ((t :: a) :: as) rest
  | complete [] rest => complete [[t]] rest
  | other => other

/-- Begins a new argument in front of the ones there are. -/
def begin : ArgumentList → ArgumentList
  | complete as rest => complete ([] :: as) rest
  | other => other

end ArgumentList

/-- Reads arguments up to the parenthesis that closes the list, `depth` further ones being open. -/
def collectArguments : Nat → List Token → ArgumentList
  | _, [] => .unterminated
  | depth, t :: ts =>
    if t.isPunctuator "(" then (collectArguments (depth + 1) ts).push t
    else if t.isPunctuator ")" then
      match depth with
      | 0 => .complete [[]] ts
      | depth + 1 => (collectArguments depth ts).push t
    else if t.isPunctuator "," && depth = 0 then (collectArguments depth ts).begin
    else (collectArguments depth ts).push t

/-- Reads an argument list, blanks in front of it included. -/
def takeArguments (ts : List Token) : ArgumentList :=
  match ts.dropWhile Token.isSpace with
  | [] => .absent
  | t :: rest => if t.isPunctuator "(" then collectArguments 0 rest else .absent

theorem sublist_of_push {t : Token} {list : ArgumentList} {ts : List Token}
    (h : ∀ as rest, list = .complete as rest → (∀ a ∈ as, a.Sublist ts) ∧ rest.Sublist ts) :
    ∀ as rest, list.push t = .complete as rest →
      (∀ a ∈ as, a.Sublist (t :: ts)) ∧ rest.Sublist (t :: ts) := by
  intro as rest hp
  match list, hp with
  | .complete (a :: as') rest', hp =>
    cases hp
    obtain ⟨ha, hr⟩ := h _ _ rfl
    refine ⟨fun b hb => ?_, hr.cons t⟩
    rcases List.mem_cons.1 hb with rfl | hb
    · exact (ha a (by simp)).cons_cons t
    · exact (ha b (by simp [hb])).cons t
  | .complete [] rest', hp =>
    cases hp
    obtain ⟨_, hr⟩ := h _ _ rfl
    refine ⟨fun b hb => ?_, hr.cons t⟩
    cases List.mem_singleton.1 hb
    exact (List.nil_sublist ts).cons_cons t

theorem sublist_of_begin {t : Token} {list : ArgumentList} {ts : List Token}
    (h : ∀ as rest, list = .complete as rest → (∀ a ∈ as, a.Sublist ts) ∧ rest.Sublist ts) :
    ∀ as rest, list.begin = .complete as rest →
      (∀ a ∈ as, a.Sublist (t :: ts)) ∧ rest.Sublist (t :: ts) := by
  intro as rest hp
  match list, hp with
  | .complete as' rest', hp =>
    cases hp
    obtain ⟨ha, hr⟩ := h _ _ rfl
    refine ⟨fun b hb => ?_, hr.cons t⟩
    rcases List.mem_cons.1 hb with rfl | hb
    · exact List.nil_sublist _
    · exact (ha b hb).cons t

/-- Arguments and the tokens after them are taken from the tokens read. -/
theorem sublist_of_collectArguments (depth : Nat) (ts : List Token) :
    ∀ as rest, collectArguments depth ts = .complete as rest →
      (∀ a ∈ as, a.Sublist ts) ∧ rest.Sublist ts := by
  fun_induction collectArguments depth ts with
  | case1 => intro as rest h; cases h
  | case2 depth t ts _ ih => exact sublist_of_push ih
  | case3 t ts =>
    intro as rest h
    cases h
    exact ⟨fun a ha => by cases List.mem_singleton.1 ha; exact List.nil_sublist _,
      List.sublist_cons_self t ts⟩
  | case4 t ts _ _ depth ih => exact sublist_of_push ih
  | case5 depth t ts _ _ _ ih => exact sublist_of_begin ih
  | case6 depth t ts _ _ _ ih => exact sublist_of_push ih

theorem sublist_of_takeArguments {ts : List Token} {as : List (List Token)} {rest : List Token}
    (h : takeArguments ts = .complete as rest) : (∀ a ∈ as, a.Sublist ts) ∧ rest.Sublist ts := by
  unfold takeArguments at h
  split at h
  · cases h
  · next t tail ht =>
    split at h
    · obtain ⟨ha, hr⟩ := sublist_of_collectArguments 0 tail as rest h
      have hs : tail.Sublist ts :=
        (List.sublist_cons_self t tail).trans (ht ▸ List.dropWhile_sublist Token.isSpace)
      exact ⟨fun a hmem => (ha a hmem).trans hs, hr.trans hs⟩
    · cases h

/-- The arguments as the parameters get them, or how many there are if that is the wrong
number. -/
def matchArguments (parameters : List (List Char)) (arguments : List (List Token)) :
    Except Nat (List (List Token)) :=
  let trimmed := arguments.map trimTokens
  if parameters.isEmpty && trimmed = [[]] then .ok []
  else if trimmed.length = parameters.length then .ok trimmed
  else .error trimmed.length

theorem sublist_of_matchArguments {parameters : List (List Char)} {as bs : List (List Token)}
    {ts : List Token} (h : matchArguments parameters as = .ok bs) (ha : ∀ a ∈ as, a.Sublist ts) :
    ∀ b ∈ bs, b.Sublist ts := by
  unfold matchArguments at h
  simp only at h
  split at h
  · cases h; simp
  · split at h
    · cases h
      intro b hb
      obtain ⟨a, hmem, rfl⟩ := List.mem_map.1 hb
      exact (trimTokens_sublist a).trans (ha a hmem)
    · cases h

end Preprocess
end ShaderKit
