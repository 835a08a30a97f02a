import ShaderKit.Proofs.ConditionGrammar
import ShaderKit.Proofs.ExpansionSeam

/-!
# Argument lists are split at the outer commas

`takeArguments` counts parentheses on its way through the tokens behind a name.  What it is meant to
find is said here without counting along: a `WrittenArguments` is an argument list as someone writes
it, blanks and an opening parenthesis, arguments with commas between them, and a closing one.  The
parentheses in an argument match, and every comma in it is inside some of them (`IsArgument`).

Reading such a list gives back what was written (`takeArguments_tokens`), nothing else is read
(`exists_written_of_takeArguments`), and what is read can be written in one way only
(`WrittenArguments.tokens_injective`).  The first two are proved for the rest of a list that has
been begun, with some number of parentheses open: `ParensClose depth` is to match after `depth`
opening ones.
-/

set_option autoImplicit false

namespace ShaderKit
namespace Preprocess

/-! ## Balanced tokens -/

/-- How many parentheses the tokens open. -/
def opened (ts : List Token) : Nat := ts.countP (·.isPunctuator "(")

/-- How many parentheses the tokens close. -/
def closed (ts : List Token) : Nat := ts.countP (·.isPunctuator ")")

/-- As many parentheses are opened as closed, and at no place more have been closed than opened. -/
structure ParensMatch (ts : List Token) : Prop where
  all : closed ts = opened ts
  noneMore : ∀ front, front <+: ts → closed front ≤ opened front

/-- The tokens are balanced, and no comma stands among them outside all parentheses. -/
structure IsArgument (ts : List Token) : Prop extends ParensMatch ts where
  noComma : ∀ front comma, front ++ [comma] <+: ts → comma.isPunctuator "," = true →
    closed front < opened front

/-- The tokens are balanced with so many opening parentheses in front of them. -/
structure ParensClose (depth : Nat) (ts : List Token) : Prop where
  all : closed ts = depth + opened ts
  noneMore : ∀ front, front <+: ts → closed front ≤ depth + opened front

/-- With so many opening parentheses in front, no comma stands outside all parentheses. -/
def NoComma (depth : Nat) (ts : List Token) : Prop :=
  ∀ front comma, front ++ [comma] <+: ts → comma.isPunctuator "," = true →
    closed front < depth + opened front

/-- With so many opening parentheses in front, there is no place where all of these are closed and
one more is. -/
def StaysOpen (depth : Nat) (ts : List Token) : Prop :=
  ∀ front closing, front ++ [closing] <+: ts → closing.isPunctuator ")" = true →
    ¬ ParensClose depth front

theorem parensMatch_iff {ts : List Token} : ParensMatch ts ↔ ParensClose 0 ts := by
  constructor
  · rintro ⟨hall, hmore⟩
    exact ⟨by rw [hall, Nat.zero_add], fun front hfront => by simpa using hmore front hfront⟩
  · rintro ⟨hall, hmore⟩
    exact ⟨by rw [hall, Nat.zero_add], fun front hfront => by simpa using hmore front hfront⟩

theorem isArgument_iff {ts : List Token} : IsArgument ts ↔ ParensClose 0 ts ∧ NoComma 0 ts := by
  rw [← parensMatch_iff]
  constructor
  · rintro ⟨hbalanced, hcomma⟩
    exact ⟨hbalanced, fun front comma hfront hc => by simpa using hcomma front comma hfront hc⟩
  · rintro ⟨hbalanced, hcomma⟩
    exact ⟨hbalanced, fun front comma hfront hc => by simpa using hcomma front comma hfront hc⟩

/-! ### One token more -/

theorem opened_cons (t : Token) (ts : List Token) : opened (t :: ts) = opened [t] + opened ts := by
  rw [← List.singleton_append, opened, List.countP_append, ← opened, ← opened]

theorem closed_cons (t : Token) (ts : List Token) : closed (t :: ts) = closed [t] + closed ts := by
  rw [← List.singleton_append, closed, List.countP_append, ← closed, ← closed]

theorem counts_of_opening {t : Token} (h : t.isPunctuator "(" = true) :
    opened [t] = 1 ∧ closed [t] = 0 := by
  simp [opened, closed, h, Token.isPunctuator_eq_false h (q := ")") (by decide)]

theorem counts_of_closing {t : Token} (h : t.isPunctuator ")" = true) :
    opened [t] = 0 ∧ closed [t] = 1 := by
  simp [opened, closed, h, Token.isPunctuator_eq_false h (q := "(") (by decide)]

theorem counts_of_other {t : Token} (hopen : ¬ t.isPunctuator "(" = true)
    (hclose : ¬ t.isPunctuator ")" = true) : opened [t] = 0 ∧ closed [t] = 0 := by
  simp [opened, closed, hopen, hclose]

/-- The first token must leave a number of parentheses open, and the others close that many. -/
theorem parensClose_cons {depth : Nat} {t : Token} {ts : List Token} :
    ParensClose depth (t :: ts) ↔
      closed [t] ≤ depth + opened [t] ∧ ParensClose (depth + opened [t] - closed [t]) ts := by
  constructor
  · rintro ⟨hall, hmore⟩
    have hone := hmore [t] (by simp)
    rw [opened_cons, closed_cons] at hall
    refine ⟨hone, by omega, fun front hfront => ?_⟩
    have hlong := hmore (t :: front) (List.cons_prefix_cons.2 ⟨rfl, hfront⟩)
    rw [opened_cons, closed_cons] at hlong
    omega
  · rintro ⟨hone, hall, hmore⟩
    refine ⟨by rw [opened_cons, closed_cons]; omega, fun front hfront => ?_⟩
    rcases front with _ | ⟨u, front⟩
    · simp [closed]
    · obtain ⟨rfl, htail⟩ := List.cons_prefix_cons.1 hfront
      have hshort := hmore front htail
      rw [opened_cons, closed_cons]
      omega

theorem noComma_cons {depth : Nat} {t : Token} {ts : List Token}
    (hone : closed [t] ≤ depth + opened [t]) :
    NoComma depth (t :: ts) ↔
      (t.isPunctuator "," = true → 0 < depth) ∧ NoComma (depth + opened [t] - closed [t]) ts := by
  constructor
  · intro h
    refine ⟨fun ht => by simpa [opened, closed] using h [] t (by simp) ht, ?_⟩
    intro front comma hfront hcomma
    have hlong := h (t :: front) comma (List.cons_prefix_cons.2 ⟨rfl, hfront⟩) hcomma
    rw [opened_cons, closed_cons] at hlong
    omega
  · rintro ⟨ht, h⟩ front comma hfront hcomma
    rcases front with _ | ⟨u, front⟩
    · obtain ⟨rfl, -⟩ := List.cons_prefix_cons.1 hfront
      simpa [opened, closed] using ht hcomma
    · obtain ⟨rfl, htail⟩ := List.cons_prefix_cons.1 hfront
      have hshort := h front comma htail hcomma
      rw [opened_cons, closed_cons]
      omega

theorem staysOpen_cons {depth : Nat} {t : Token} {ts : List Token} :
    StaysOpen depth (t :: ts) ↔
      (t.isPunctuator ")" = true → depth ≠ 0) ∧
        (closed [t] ≤ depth + opened [t] → StaysOpen (depth + opened [t] - closed [t]) ts) := by
  have hnil : ParensClose depth [] ↔ depth = 0 := by
    constructor
    · rintro ⟨hall, -⟩
      simpa [opened, closed, eq_comm] using hall
    · rintro rfl
      exact ⟨rfl, fun front hfront => by simp [List.prefix_nil.1 hfront, closed]⟩
  constructor
  · intro h
    refine ⟨fun ht hzero => h [] t (by simp) ht (hnil.2 hzero), ?_⟩
    intro hone front closing hfront hclosing hcloses
    exact h (t :: front) closing (List.cons_prefix_cons.2 ⟨rfl, hfront⟩) hclosing
      (parensClose_cons.2 ⟨hone, hcloses⟩)
  · rintro ⟨ht, h⟩ front closing hfront hclosing hcloses
    rcases front with _ | ⟨u, front⟩
    · obtain ⟨rfl, -⟩ := List.cons_prefix_cons.1 hfront
      exact ht hclosing (hnil.1 hcloses)
    · obtain ⟨rfl, htail⟩ := List.cons_prefix_cons.1 hfront
      obtain ⟨hone, hcloses⟩ := parensClose_cons.1 hcloses
      exact h hone front closing htail hclosing hcloses

/-! ## Argument lists as they are written -/

/-- An argument list as it stands in a text: the blanks in front of it, its parentheses, at least
one argument, and each further one with the comma before it. -/
structure WrittenArguments where
  blanks : List Token
  opening : Token
  first : List Token
  others : List (Token × List Token)
  closing : Token
  /-- What stands behind the list. -/
  rest : List Token
  blanks_isSpace : ∀ t ∈ blanks, t.isSpace = true
  opening_isPunctuator : opening.isPunctuator "(" = true
  first_isArgument : IsArgument first
  others_isArgument : ∀ other ∈ others, other.1.isPunctuator "," = true ∧ IsArgument other.2
  closing_isPunctuator : closing.isPunctuator ")" = true

/-- What stands behind the opening parenthesis. -/
def insideTokens (first : List Token) (others : List (Token × List Token)) (closing : Token)
    (rest : List Token) : List Token :=
  first ++ (others.flatMap (fun other => other.1 :: other.2) ++ closing :: rest)

namespace WrittenArguments

/-- The arguments, without what stands between them. -/
def arguments (w : WrittenArguments) : List (List Token) := w.first :: w.others.map (·.2)

/-- The tokens that the list is written with, and those behind it. -/
def tokens (w : WrittenArguments) : List Token :=
  w.blanks ++ w.opening :: insideTokens w.first w.others w.closing w.rest

end WrittenArguments

/-! ## What is written is read -/

/-- Tokens that are put in front of a list one by one go to its first argument. -/
theorem foldr_push (ts a : List Token) (as : List (List Token)) (rest : List Token) :
    ts.foldr ArgumentList.push (.complete (a :: as) rest) = .complete ((ts ++ a) :: as) rest := by
  induction ts with
  | nil => rfl
  | cons t ts ih =>
    rw [List.foldr_cons, ih]
    rfl

/-- What closes all parentheses, and has no comma outside them, goes to the first argument. -/
theorem collectArguments_append_of_closes {depth : Nat} {ts : List Token}
    (hcloses : ParensClose depth ts) (hcomma : NoComma depth ts) (more : List Token) :
    collectArguments depth (ts ++ more) = ts.foldr ArgumentList.push (collectArguments 0 more) := by
  induction ts generalizing depth with
  | nil =>
    have hdepth : depth = 0 := by simpa [opened, closed, eq_comm] using hcloses.all
    rw [hdepth]
    rfl
  | cons t ts ih =>
    obtain ⟨hone, hcloses⟩ := parensClose_cons.1 hcloses
    obtain ⟨ht, hcomma⟩ := (noComma_cons hone).1 hcomma
    rw [List.cons_append, collectArguments_cons, List.foldr_cons]
    by_cases hopen : t.isPunctuator "(" = true
    · obtain ⟨ho, hc⟩ := counts_of_opening hopen
      rw [ho, hc] at hcloses hcomma
      rw [if_pos hopen, ← ih hcloses hcomma]
      rfl
    · by_cases hclose : t.isPunctuator ")" = true
      · obtain ⟨ho, hc⟩ := counts_of_closing hclose
        rw [ho, hc] at hone hcloses hcomma
        obtain ⟨less, rfl⟩ := Nat.exists_eq_succ_of_ne_zero (show depth ≠ 0 by omega)
        rw [if_neg hopen, if_pos hclose, ← ih hcloses hcomma]
        rfl
      · obtain ⟨ho, hc⟩ := counts_of_other hopen hclose
        rw [ho, hc] at hcloses hcomma
        have hinside : ¬ (t.isPunctuator "," && decide (depth = 0)) = true := by
          simp only [Bool.and_eq_true, decide_eq_true_eq, not_and]
          intro h
          exact Nat.pos_iff_ne_zero.1 (ht h)
        rw [if_neg hopen, if_neg hclose, if_neg hinside, ← ih hcloses hcomma]
        rfl

theorem collectArguments_insideTokens {first : List Token} {others : List (Token × List Token)}
    {closing : Token} (hfirst : IsArgument first)
    (hothers : ∀ other ∈ others, other.1.isPunctuator "," = true ∧ IsArgument other.2)
    (hclosing : closing.isPunctuator ")" = true) (rest : List Token) :
    collectArguments 0 (insideTokens first others closing rest) =
      .complete (first :: others.map (·.2)) rest := by
  induction others generalizing first with
  | nil =>
    obtain ⟨hcloses, hcomma⟩ := isArgument_iff.1 hfirst
    have hopen : ¬ closing.isPunctuator "(" = true := by
      simp [Token.isPunctuator_eq_false hclosing (q := "(") (by decide)]
    rw [insideTokens, collectArguments_append_of_closes hcloses hcomma, List.flatMap_nil,
      List.nil_append, collectArguments_cons, if_neg hopen, if_pos hclosing, foldr_push,
      List.append_nil, List.map_nil]
  | cons other others ih =>
    obtain ⟨comma, second⟩ := other
    obtain ⟨⟨hc, hsecond⟩, hothers⟩ := List.forall_mem_cons.1 hothers
    obtain ⟨hcloses, hcomma⟩ := isArgument_iff.1 hfirst
    have hopen : ¬ comma.isPunctuator "(" = true := by
      simp [Token.isPunctuator_eq_false hc (q := "(") (by decide)]
    have hclose : ¬ comma.isPunctuator ")" = true := by
      simp [Token.isPunctuator_eq_false hc (q := ")") (by decide)]
    have hsplit : insideTokens first ((comma, second) :: others) closing rest =
        first ++ comma :: insideTokens second others closing rest := by
      simp [insideTokens]
    rw [hsplit, collectArguments_append_of_closes hcloses hcomma, collectArguments_cons,
      if_neg hopen, if_neg hclose, if_pos (by simpa using hc), ih hsecond hothers,
      ArgumentList.begin, foldr_push, List.append_nil, List.map_cons]

theorem isSpace_of_isPunctuator {t : Token} {p : String} (h : t.isPunctuator p = true) :
    t.isSpace = false := by
  rw [Token.isSpace, (Token.isPunctuator_iff.1 h).1]
  rfl

/-- Blanks in front of the parenthesis are passed by. -/
theorem dropWhile_isSpace_append {blanks : List Token} (hblanks : ∀ t ∈ blanks, t.isSpace = true)
    {opening : Token} (hopening : opening.isPunctuator "(" = true) (inside : List Token) :
    (blanks ++ opening :: inside).dropWhile Token.isSpace = opening :: inside := by
  rw [List.dropWhile_append_of_pos hblanks, List.dropWhile_cons_of_neg]
  simp [isSpace_of_isPunctuator hopening]

theorem takeArguments_append_opening {blanks : List Token}
    (hblanks : ∀ t ∈ blanks, t.isSpace = true) {opening : Token}
    (hopening : opening.isPunctuator "(" = true) (inside : List Token) :
    takeArguments (blanks ++ opening :: inside) = collectArguments 0 inside := by
  rw [takeArguments, dropWhile_isSpace_append hblanks hopening]
  exact if_pos hopening

/-- **An argument list is read as it was written.** -/
theorem takeArguments_tokens (w : WrittenArguments) :
    takeArguments w.tokens = .complete w.arguments w.rest := by
  rw [WrittenArguments.tokens,
    takeArguments_append_opening w.blanks_isSpace w.opening_isPunctuator]
  exact collectArguments_insideTokens w.first_isArgument w.others_isArgument w.closing_isPunctuator
    w.rest

/-! ## What is read was written -/

theorem push_eq_complete_iff {t : Token} {list : ArgumentList} {as : List (List Token)}
    {rest : List Token} :
    list.push t = .complete as rest ↔
      (∃ a as', list = .complete (a :: as') rest ∧ as = (t :: a) :: as') ∨
        list = .complete [] rest ∧ as = [[t]] := by
  rcases list with _ | _ | ⟨_ | ⟨a, as'⟩, rest'⟩ <;>
    simp [ArgumentList.push, eq_comm, and_comm]

theorem begin_eq_complete_iff {list : ArgumentList} {as : List (List Token)} {rest : List Token} :
    list.begin = .complete as rest ↔ ∃ as', list = .complete as' rest ∧ as = [] :: as' := by
  rcases list with _ | _ | ⟨as', rest'⟩ <;> simp [ArgumentList.begin, eq_comm, and_comm]

/-- What `collectArguments` has read, as it was written: the first argument closes the parentheses
that were open before it, and the others are arguments. -/
structure IsReadFrom (depth : Nat) (ts : List Token) (as : List (List Token)) (rest : List Token)
    (first : List Token) (others : List (Token × List Token)) (closing : Token) : Prop where
  tokens : ts = insideTokens first others closing rest
  arguments : as = first :: others.map (·.2)
  first_closes : ParensClose depth first
  first_noComma : NoComma depth first
  others_isArgument : ∀ other ∈ others, other.1.isPunctuator "," = true ∧ IsArgument other.2
  closing_isPunctuator : closing.isPunctuator ")" = true

/-- The list has been read as something that was written. -/
def IsRead (depth : Nat) (ts : List Token) (list : ArgumentList) : Prop :=
  ∀ as rest, list = .complete as rest →
    ∃ first others closing, IsReadFrom depth ts as rest first others closing

/-- A token goes to the first argument, unless it closes too much or separates. -/
theorem isRead_push {depth : Nat} {t : Token} {ts : List Token} {list : ArgumentList}
    (hone : closed [t] ≤ depth + opened [t]) (ht : t.isPunctuator "," = true → 0 < depth)
    (h : IsRead (depth + opened [t] - closed [t]) ts list) :
    IsRead depth (t :: ts) (list.push t) := by
  intro as rest hpush
  rcases push_eq_complete_iff.1 hpush with ⟨a, as', hlist, rfl⟩ | ⟨hlist, -⟩
  · obtain ⟨first, others, closing, hread⟩ := h _ _ hlist
    obtain ⟨rfl, rfl⟩ := List.cons.inj hread.arguments
    exact ⟨t :: a, others, closing,
      { tokens := by rw [hread.tokens]; rfl
        arguments := rfl
        first_closes := parensClose_cons.2 ⟨hone, hread.first_closes⟩
        first_noComma := (noComma_cons hone).2 ⟨ht, hread.first_noComma⟩
        others_isArgument := hread.others_isArgument
        closing_isPunctuator := hread.closing_isPunctuator }⟩
  · obtain ⟨first, others, closing, hread⟩ := h _ _ hlist
    cases hread.arguments

theorem isArgument_nil : IsArgument [] where
  all := rfl
  noneMore front hfront := by
    rw [List.prefix_nil.1 hfront]
    exact Nat.le_refl 0
  noComma front comma hfront := by simp at hfront

theorem isRead_collectArguments (depth : Nat) (ts : List Token) :
    IsRead depth ts (collectArguments depth ts) := by
  fun_induction collectArguments depth ts with
  | case1 depth =>
    intro as rest hnone
    cases hnone
  | case2 depth t ts hopen ih =>
    obtain ⟨ho, hc⟩ := counts_of_opening hopen
    refine isRead_push (by omega) ?_ (by rwa [ho, hc])
    simp [Token.isPunctuator_eq_false hopen (q := ",") (by decide)]
  | case3 t ts hopen hclose =>
    intro as rest hempty
    cases hempty
    obtain ⟨hcloses, hcomma⟩ := isArgument_iff.1 isArgument_nil
    exact ⟨[], [], t,
      { tokens := rfl
        arguments := rfl
        first_closes := hcloses
        first_noComma := hcomma
        others_isArgument := by simp
        closing_isPunctuator := hclose }⟩
  | case4 t ts hopen hclose depth ih =>
    obtain ⟨ho, hc⟩ := counts_of_closing hclose
    refine isRead_push (by omega) (fun _ => Nat.succ_pos depth) ?_
    rwa [ho, hc]
  | case5 depth t ts hopen hclose hcomma ih =>
    intro as rest hbegin
    obtain ⟨as', hlist, rfl⟩ := begin_eq_complete_iff.1 hbegin
    obtain ⟨first, others, closing, hread⟩ := ih _ _ hlist
    simp only [Bool.and_eq_true, decide_eq_true_eq] at hcomma
    obtain ⟨hcomma, rfl⟩ := hcomma
    obtain ⟨hcloses, hnone⟩ := isArgument_iff.1 isArgument_nil
    have hfirst : IsArgument first :=
      isArgument_iff.2 ⟨hread.first_closes, hread.first_noComma⟩
    exact ⟨[], (t, first) :: others, closing,
      { tokens := by simp [hread.tokens, insideTokens]
        arguments := by rw [hread.arguments]; rfl
        first_closes := hcloses
        first_noComma := hnone
        others_isArgument := List.forall_mem_cons.2 ⟨⟨hcomma, hfirst⟩, hread.others_isArgument⟩
        closing_isPunctuator := hread.closing_isPunctuator }⟩
  | case6 depth t ts hopen hclose hcomma ih =>
    obtain ⟨ho, hc⟩ := counts_of_other hopen hclose
    refine isRead_push (by omega) ?_ (by rwa [ho, hc])
    intro ht
    simpa [ht, Nat.pos_iff_ne_zero] using hcomma

/-- A list that begins with an opening parenthesis, blanks in front of it aside. -/
theorem exists_opening_of_takeArguments {ts : List Token} (h : takeArguments ts ≠ .absent) :
    ∃ blanks opening inside, ts = blanks ++ opening :: inside ∧
      (∀ t ∈ blanks, t.isSpace = true) ∧ opening.isPunctuator "(" = true := by
  have hsplit : ts = ts.takeWhile Token.isSpace ++ ts.dropWhile Token.isSpace :=
    List.takeWhile_append_dropWhile.symm
  unfold takeArguments at h
  split at h
  · exact absurd rfl h
  · rename_i opening inside hdrop
    rw [hdrop] at hsplit
    split at h
    · rename_i hopening
      exact ⟨_, opening, inside, hsplit, fun t ht => List.mem_takeWhile_imp ht, hopening⟩
    · exact absurd rfl h

theorem exists_written_of_takeArguments {ts : List Token} {as : List (List Token)}
    {rest : List Token} (h : takeArguments ts = .complete as rest) :
    ∃ w : WrittenArguments, w.tokens = ts := by
  obtain ⟨blanks, opening, inside, rfl, hblanks, hopening⟩ :=
    exists_opening_of_takeArguments (by simp [h] : takeArguments ts ≠ .absent)
  rw [takeArguments_append_opening hblanks hopening] at h
  obtain ⟨first, others, closing, hread⟩ := isRead_collectArguments 0 inside as rest h
  exact ⟨
    { blanks, opening, first, others, closing, rest
      blanks_isSpace := hblanks
      opening_isPunctuator := hopening
      first_isArgument := isArgument_iff.2 ⟨hread.first_closes, hread.first_noComma⟩
      others_isArgument := hread.others_isArgument
      closing_isPunctuator := hread.closing_isPunctuator },
    (congrArg (blanks ++ opening :: ·) hread.tokens).symm⟩

/-! ### There is only one way to write a list -/

/-- If the arguments are the same, so are the commas and the closing parenthesis. -/
theorem insideTokens_inj {first : List Token} {others others' : List (Token × List Token)}
    {closing closing' : Token} {rest : List Token} (hothers : others.map (·.2) = others'.map (·.2))
    (h : insideTokens first others closing rest = insideTokens first others' closing' rest) :
    others = others' ∧ closing = closing' := by
  have htail := List.append_cancel_left h
  clear h
  induction others generalizing others' with
  | nil =>
    rcases others' with _ | _
    · simpa using htail
    · simp at hothers
  | cons other others ih =>
    rcases others' with _ | ⟨other', others'⟩
    · simp at hothers
    · obtain ⟨comma, a⟩ := other
      obtain ⟨comma', a'⟩ := other'
      simp only [List.map_cons, List.cons.injEq] at hothers
      obtain ⟨rfl, hothers⟩ := hothers
      simp only [List.flatMap_cons, List.cons_append, List.cons.injEq, List.append_assoc,
        List.append_cancel_left_eq] at htail
      obtain ⟨rfl, htail⟩ := htail
      obtain ⟨rfl, rfl⟩ := ih hothers htail
      exact ⟨rfl, rfl⟩

theorem WrittenArguments.tokens_injective : Function.Injective WrittenArguments.tokens := by
  intro w w' h
  have hread := takeArguments_tokens w
  rw [h, takeArguments_tokens w', ArgumentList.complete.injEq] at hread
  obtain ⟨harguments, hrest⟩ := hread
  obtain ⟨hfirst, hothers⟩ := List.cons.inj harguments
  have hdrop := congrArg (List.dropWhile Token.isSpace) h
  simp only [tokens, dropWhile_isSpace_append w.blanks_isSpace w.opening_isPunctuator,
    dropWhile_isSpace_append w'.blanks_isSpace w'.opening_isPunctuator, List.cons.injEq] at hdrop
  obtain ⟨hopening, hinside⟩ := hdrop
  have hblanks : w.blanks = w'.blanks := by
    rw [tokens, tokens, hopening, hinside] at h
    exact List.append_cancel_right h
  rw [← hfirst, ← hrest] at hinside
  obtain ⟨hcommas, hclosing⟩ := insideTokens_inj hothers.symm hinside
  obtain ⟨_, _, _, _, _, _, _, _, _, _, _⟩ := w
  obtain ⟨_, _, _, _, _, _, _, _, _, _, _⟩ := w'
  simp only at hfirst hrest hopening hblanks hcommas hclosing
  subst hfirst hrest hopening hblanks hcommas hclosing
  rfl

/-! ## What is not read -/

theorem push_eq_unterminated_iff {t : Token} {list : ArgumentList} :
    list.push t = .unterminated ↔ list = .unterminated := by
  rcases list with _ | _ | ⟨_ | _, _⟩ <;> simp [ArgumentList.push]

theorem begin_eq_unterminated_iff {list : ArgumentList} :
    list.begin = .unterminated ↔ list = .unterminated := by
  rcases list with _ | _ | _ <;> simp [ArgumentList.begin]

theorem collectArguments_eq_unterminated_iff (depth : Nat) (ts : List Token) :
    collectArguments depth ts = .unterminated ↔ StaysOpen depth ts := by
  fun_induction collectArguments depth ts with
  | case1 => simp [StaysOpen]
  | case2 depth t ts hopen ih =>
    obtain ⟨ho, hc⟩ := counts_of_opening hopen
    simp [push_eq_unterminated_iff, ih, staysOpen_cons, ho, hc,
      Token.isPunctuator_eq_false hopen (q := ")") (by decide)]
  | case3 t ts hopen hclose => simp [staysOpen_cons, hclose]
  | case4 t ts hopen hclose depth ih =>
    obtain ⟨ho, hc⟩ := counts_of_closing hclose
    simp [push_eq_unterminated_iff, ih, staysOpen_cons, ho, hc]
  | case5 depth t ts hopen hclose hcomma ih =>
    obtain ⟨ho, hc⟩ := counts_of_other hopen hclose
    simp [begin_eq_unterminated_iff, ih, staysOpen_cons, ho, hc, hclose]
  | case6 depth t ts hopen hclose hcomma ih =>
    obtain ⟨ho, hc⟩ := counts_of_other hopen hclose
    simp [push_eq_unterminated_iff, ih, staysOpen_cons, ho, hc, hclose]

theorem takeArguments_eq_absent_iff {ts : List Token} :
    takeArguments ts = .absent ↔
      ∀ t ∈ ts.find? fun t => !t.isSpace, t.isPunctuator "(" = false := by
  rw [List.find?_not_eq_head?_dropWhile, takeArguments]
  rcases ts.dropWhile Token.isSpace with _ | ⟨t, inside⟩
  · simp
  · by_cases hopen : t.isPunctuator "(" = true
    · simp [hopen, collectArguments_ne_absent]
    · simp [hopen]

theorem takeArguments_eq_unterminated_iff {ts : List Token} :
    takeArguments ts = .unterminated ↔
      ∃ blanks opening inside, ts = blanks ++ opening :: inside ∧
        (∀ t ∈ blanks, t.isSpace = true) ∧ opening.isPunctuator "(" = true ∧
        ∀ front closing, front ++ [closing] <+: inside → closing.isPunctuator ")" = true →
          ¬ ParensMatch front := by
  have hopen : ∀ inside, StaysOpen 0 inside ↔
      ∀ front closing, front ++ [closing] <+: inside → closing.isPunctuator ")" = true →
        ¬ ParensMatch front := fun inside => by simp only [StaysOpen, parensMatch_iff]
  constructor
  · intro h
    obtain ⟨blanks, opening, inside, rfl, hblanks, hopening⟩ :=
      exists_opening_of_takeArguments (by simp [h] : takeArguments ts ≠ .absent)
    rw [takeArguments_append_opening hblanks hopening, collectArguments_eq_unterminated_iff] at h
    exact ⟨blanks, opening, inside, rfl, hblanks, hopening, (hopen inside).1 h⟩
  · rintro ⟨blanks, opening, inside, rfl, hblanks, hopening, h⟩
    rw [takeArguments_append_opening hblanks hopening, collectArguments_eq_unterminated_iff]
    exact (hopen inside).2 h

/-! ## What a macro accepts -/

theorem trimTokens_eq_nil_iff {ts : List Token} :
    trimTokens ts = [] ↔ ∀ t ∈ ts, t.isSpace = true := by
  constructor
  · intro h t ht
    rw [trimTokens, List.reverse_eq_nil_iff, List.dropWhile_eq_nil_iff] at h
    by_contra hword
    have hmem : t ∈ ts.dropWhile Token.isSpace := by
      have hsplit := List.takeWhile_append_dropWhile (p := Token.isSpace) (l := ts)
      rw [← hsplit, List.mem_append] at ht
      exact ht.resolve_left fun hfront => hword (List.mem_takeWhile_imp hfront)
    exact hword (h t (List.mem_reverse.2 hmem))
  · intro h
    rw [trimTokens, List.dropWhile_eq_nil_iff.2 h]
    rfl

/-- The number of arguments is right, or there are no parameters and nothing but blanks is given. -/
theorem exists_matchArguments_iff {parameters : List (List Char)} {arguments : List (List Token)} :
    (∃ matched, matchArguments parameters arguments = .ok matched) ↔
      arguments.length = parameters.length ∨
        parameters = [] ∧ ∃ a, arguments = [a] ∧ ∀ t ∈ a, t.isSpace = true := by
  have hblank : arguments.map trimTokens = [[]] ↔
      ∃ a, arguments = [a] ∧ ∀ t ∈ a, t.isSpace = true := by
    simp only [List.map_eq_singleton_iff, trimTokens_eq_nil_iff]
  have hnone : (parameters.isEmpty && decide (arguments.map trimTokens = [[]])) = true ↔
      parameters = [] ∧ ∃ a, arguments = [a] ∧ ∀ t ∈ a, t.isSpace = true := by
    rw [Bool.and_eq_true, List.isEmpty_iff, decide_eq_true_eq, hblank]
  rw [← hnone, matchArguments]
  simp only [List.length_map]
  split_ifs with hempty hlength
  · simp [hempty]
  · simp [hlength]
  · simp [hempty, hlength]

/-- **An argument list is split exactly at its outer commas.**  A list that is written down is read
as its arguments, and what is behind it is left; conversely, what is read as arguments was written
as such a list, in one way only.  Nothing is read if no opening parenthesis is the first thing
behind the blanks, and then the name before it stays and what follows it is expanded as it stands;
and it is an error exactly if that parenthesis is not closed, that is, if no closing one follows
balanced tokens.  Of the arguments that are read, a macro accepts as many as it has parameters; if
it has none, also a single blank one. -/
theorem takeArguments_splits :
    (∀ w : WrittenArguments, takeArguments w.tokens = .complete w.arguments w.rest) ∧
    (∀ ts as rest, takeArguments ts = .complete as rest →
      ∃! w : WrittenArguments, w.tokens = ts) ∧
    (∀ ts, takeArguments ts = .absent ↔
      ∀ t ∈ ts.find? fun t => !t.isSpace, t.isPunctuator "(" = false) ∧
    (∀ (table : MacroTable) (t : Token) (ts : List Token), table.AwaitsArguments t →
      takeArguments ts = .absent → expand table (t :: ts) = (expand table ts).map (t :: ·)) ∧
    (∀ ts, takeArguments ts = .unterminated ↔
      ∃ blanks opening inside, ts = blanks ++ opening :: inside ∧
        (∀ t ∈ blanks, t.isSpace = true) ∧ opening.isPunctuator "(" = true ∧
        ∀ front closing, front ++ [closing] <+: inside → closing.isPunctuator ")" = true →
          ¬ ParensMatch front) ∧
    ∀ (w : WrittenArguments) (parameters : List (List Char)),
      (∃ matched, matchArguments parameters w.arguments = .ok matched) ↔
        w.arguments.length = parameters.length ∨
          parameters = [] ∧ ∃ a, w.arguments = [a] ∧ ∀ t ∈ a, t.isSpace = true := by
  refine ⟨takeArguments_tokens, fun ts as rest h => ?_, fun ts => takeArguments_eq_absent_iff,
    fun table t ts ht => expand_cons_of_absent ht, fun ts => takeArguments_eq_unterminated_iff,
    fun w parameters => exists_matchArguments_iff⟩
  obtain ⟨w, hw⟩ := exists_written_of_takeArguments h
  exact ⟨w, hw, fun w' hw' => WrittenArguments.tokens_injective (hw'.trans hw.symm)⟩

/-- Of ` (a, (b, c), ) + 1` the arguments are `a`, `(b, c)` and a blank, and there is one way to see
this; and a name with ` + 1` behind it is no call. -/
theorem takeArguments_splits_nested :
    let f : Token := ⟨.identifier, ['F'], []⟩
    takeArguments (tokenize " (a, (b, c), ) + 1".toList) =
        .complete (["a", " (b, c)", " "].map fun a => tokenize a.toList)
          (tokenize " + 1".toList) ∧
      (∃! w : WrittenArguments, w.tokens = tokenize " (a, (b, c), ) + 1".toList) ∧
      expand trailingTable (f :: tokenize " + 1".toList) =
        (expand trailingTable (tokenize " + 1".toList)).map (f :: ·) := by
  intro f
  have hread : takeArguments (tokenize " (a, (b, c), ) + 1".toList) =
      .complete (["a", " (b, c)", " "].map fun a => tokenize a.toList)
        (tokenize " + 1".toList) := by decide +kernel
  have hawaits : trailingTable.AwaitsArguments f := ⟨_, _, rfl, rfl⟩
  exact ⟨hread, takeArguments_splits.2.1 _ _ _ hread,
    takeArguments_splits.2.2.2.1 trailingTable f _ hawaits (by decide +kernel)⟩

end Preprocess
end ShaderKit
