import Mathlib.Data.List.TakeWhile
import ShaderKit.Proofs.ExpansionMachine
import ShaderKit.Proofs.Success

/-!
# Expansion across a seam

Expansion goes from the left to the right and never looks back: what has been put out is not looked
at again, and what is put out for a list does not depend on what stood before it.  It does look
ahead, and only for one thing.  The name of a function-like macro is a call if an opening
parenthesis follows, and that may stand far behind, where all that the name came from has been used
up.

So a list can be expanded in two pieces, unless the first one ends with such a name
(`expand_append`).  An argument list is no obstacle: if it is complete in the first piece, it is the
same one whatever follows, and if it is not, the first piece alone is an error.

Where all macros are object-like, nothing is looked ahead for, no call can be wrong, and expansion
leaves nothing to expand.
-/

set_option autoImplicit false

namespace ShaderKit
namespace Preprocess

/-! ## How the expansion of a list begins -/

namespace MacroTable

/-- The token is the name of a function-like macro that it does not hide: with arguments behind it,
it would be a call. -/
def AwaitsArguments (table : MacroTable) (t : Token) : Prop :=
  ∃ m parameters, table.macroAt? t = some m ∧ m.parameters = some parameters

/-- All macros of the table are object-like. -/
def IsObjectLike (table : MacroTable) : Prop :=
  ∀ name m, table.get? name = some m → m.parameters = none

theorem IsObjectLike.not_awaitsArguments {table : MacroTable} (h : table.IsObjectLike)
    (t : Token) : ¬ table.AwaitsArguments t := by
  rintro ⟨m, parameters, hm, hp⟩
  rw [h t.text m (macroAt?_eq_some_iff.1 hm).2.2] at hp
  cases hp

end MacroTable

/-- The ways in which a list that begins with a token is expanded without an error. -/
inductive Unfolds (table : MacroTable) (t : Token) (rest out : List Token) : Prop
  /-- The token is no name of a macro, and stays. -/
  | plain (hm : table.macroAt? t = none) (tail : List Token) (htail : expand table rest = .ok tail)
      (hout : out = t :: tail)
  /-- The token is a name that awaits arguments in vain, and stays. -/
  | alone (hm : table.AwaitsArguments t) (hc : takeArguments rest = .absent) (tail : List Token)
      (htail : expand table rest = .ok tail) (hout : out = t :: tail)
  /-- The token is an object-like macro. -/
  | object (m : Macro) (hm : table.macroAt? t = some m) (hp : m.parameters = none)
      (hexpand : expand table (m.body.map (Token.hide t.trail) ++ rest) = .ok out)
  /-- The token is a function-like macro, and a call of it. -/
  | call (m : Macro) (hm : table.macroAt? t = some m) (parameters : List (List Char))
      (hp : m.parameters = some parameters) (arguments : List (List Token)) (after : List Token)
      (hc : takeArguments rest = .complete arguments after) (matched expanded : List (List Token))
      (ha : matchArguments parameters arguments = .ok matched)
      (hargs : matched.mapM (expand table) = .ok expanded)
      (hexpand : expand table
        ((substitute m.body parameters expanded).map (Token.hide t.trail) ++ after) = .ok out)

theorem unfolds_of_expand {table : MacroTable} {t : Token} {rest out : List Token}
    (h : expand table (t :: rest) = .ok out) : Unfolds table t rest out := by
  rw [expand_cons] at h
  split at h
  · rename_i hm
    obtain ⟨tail, htail, hout⟩ := bind_eq_ok_iff.1 h
    cases hout
    exact .plain hm tail htail rfl
  · rename_i m hm
    split at h
    · rename_i hp
      exact .object m hm hp h
    · rename_i parameters hp
      split at h
      · rename_i hc
        obtain ⟨tail, htail, hout⟩ := bind_eq_ok_iff.1 h
        cases hout
        exact .alone ⟨m, parameters, hm, hp⟩ hc tail htail rfl
      · cases h
      · rename_i arguments after hc
        split at h
        · cases h
        · rename_i matched ha
          obtain ⟨expanded, hargs, hexpand⟩ := bind_eq_ok_iff.1 h
          exact .call m hm parameters hp arguments after hc matched expanded ha hargs hexpand

/-! ## What is left of a list -/

/-- **No token of a result is expanded any more**, unless it awaits arguments. -/
theorem eq_none_or_awaitsArguments_of_mem_expand {table : MacroTable} {ts out : List Token}
    (h : expand table ts = .ok out) :
    ∀ t ∈ out, table.macroAt? t = none ∨ table.AwaitsArguments t := by
  induction ts using (Worklist.sinks_wellFounded table.level).induction generalizing out with
  | _ ts ih =>
  cases ts with
  | nil =>
    rw [expand_nil] at h
    cases h
    simp
  | cons t rest =>
    rcases unfolds_of_expand h with ⟨hm, tail, htail, rfl⟩ | ⟨hm, -, tail, htail, rfl⟩ |
      ⟨m, hm, -, hexpand⟩ | ⟨m, hm, _, _, _, after, hc, _, _, -, -, hexpand⟩
    · exact List.forall_mem_cons.2 ⟨.inl hm, ih rest (sinks_tail (List.Sublist.refl rest)) htail⟩
    · exact List.forall_mem_cons.2 ⟨.inr hm, ih rest (sinks_tail (List.Sublist.refl rest)) htail⟩
    · exact ih _ (sinks_replacement hm m.body (List.Sublist.refl rest)) hexpand
    · exact ih _ (sinks_replacement hm _ (sublist_of_takeArguments hc).2) hexpand

/-- A list of which no token is the name of a macro stays as it is. -/
theorem expand_of_forall {table : MacroTable} {ts : List Token}
    (h : ∀ t ∈ ts, table.macroAt? t = none) : expand table ts = .ok ts := by
  induction ts with
  | nil => exact expand_nil table
  | cons t ts ih =>
    obtain ⟨ht, hts⟩ := List.forall_mem_cons.1 h
    rw [expand_cons, ht, ih hts]
    rfl

theorem macroAt?_of_isSpace {t : Token} (h : t.isSpace = true) (table : MacroTable) :
    table.macroAt? t = none := by
  have hkind : t.kind = .space := by simpa [Token.isSpace] using h
  simp [MacroTable.macroAt?, hkind]

/-! ## Argument lists across a seam -/

theorem push_eq_complete_append {t : Token} {list list' : ArgumentList} {b : List Token}
    (h : ∀ as rest, list = .complete as rest → list' = .complete as (rest ++ b)) :
    ∀ as rest, list.push t = .complete as rest → list'.push t = .complete as (rest ++ b) := by
  intro as rest hpush
  match list, hpush with
  | .complete [] rest', hpush =>
    cases hpush
    rw [h _ _ rfl]
    rfl
  | .complete (a :: as') rest', hpush =>
    cases hpush
    rw [h _ _ rfl]
    rfl

theorem begin_eq_complete_append {list list' : ArgumentList} {b : List Token}
    (h : ∀ as rest, list = .complete as rest → list' = .complete as (rest ++ b)) :
    ∀ as rest, list.begin = .complete as rest → list'.begin = .complete as (rest ++ b) := by
  intro as rest hbegin
  match list, hbegin with
  | .complete as' rest', hbegin =>
    cases hbegin
    rw [h _ _ rfl]
    rfl

theorem collectArguments_cons (depth : Nat) (t : Token) (ts : List Token) :
    collectArguments depth (t :: ts) =
      if t.isPunctuator "(" then (collectArguments (depth + 1) ts).push t
      else if t.isPunctuator ")" then
        match depth with
        | 0 => .complete [[]] ts
        | depth + 1 => (collectArguments depth ts).push t
      else if t.isPunctuator "," && depth = 0 then (collectArguments depth ts).begin
      else (collectArguments depth ts).push t := by
  cases depth <;> rfl

/-- An argument list that is complete is the same whatever follows. -/
theorem collectArguments_append (depth : Nat) (ts b : List Token) :
    ∀ as rest, collectArguments depth ts = .complete as rest →
      collectArguments depth (ts ++ b) = .complete as (rest ++ b) := by
  fun_induction collectArguments depth ts with
  | case1 => simp
  | case2 depth t ts hopen ih =>
    rw [List.cons_append, collectArguments_cons, if_pos hopen]
    exact push_eq_complete_append ih
  | case3 t ts hopen hclose =>
    rw [List.cons_append, collectArguments_cons, if_neg hopen, if_pos hclose]
    intro as rest h
    cases h
    rfl
  | case4 t ts hopen hclose depth ih =>
    rw [List.cons_append, collectArguments_cons, if_neg hopen, if_pos hclose]
    exact push_eq_complete_append ih
  | case5 depth t ts hopen hclose hcomma ih =>
    rw [List.cons_append, collectArguments_cons, if_neg hopen, if_neg hclose, if_pos hcomma]
    exact begin_eq_complete_append ih
  | case6 depth t ts hopen hclose hcomma ih =>
    rw [List.cons_append, collectArguments_cons, if_neg hopen, if_neg hclose, if_neg hcomma]
    exact push_eq_complete_append ih

/-- A list that has been begun is there, complete or not. -/
theorem collectArguments_ne_absent (depth : Nat) (ts : List Token) :
    collectArguments depth ts ≠ .absent := by
  have hpush {t : Token} {list : ArgumentList} (h : list ≠ .absent) : list.push t ≠ .absent := by
    rcases list with _ | _ | ⟨_ | _, _⟩ <;> simp_all [ArgumentList.push]
  have hbegin {list : ArgumentList} (h : list ≠ .absent) : list.begin ≠ .absent := by
    rcases list with _ | _ | _ <;> simp_all [ArgumentList.begin]
  fun_induction collectArguments depth ts with
  | case1 => simp
  | case2 depth t ts hopen ih => exact hpush ih
  | case3 t ts hopen hclose => simp
  | case4 t ts hopen hclose depth ih => exact hpush ih
  | case5 depth t ts hopen hclose hcomma ih => exact hbegin ih
  | case6 depth t ts hopen hclose hcomma ih => exact hpush ih

theorem takeArguments_append {ts : List Token} {as : List (List Token)} {rest : List Token}
    (h : takeArguments ts = .complete as rest) (b : List Token) :
    takeArguments (ts ++ b) = .complete as (rest ++ b) := by
  unfold takeArguments at h ⊢
  rw [List.dropWhile_append]
  split at h
  · cases h
  · rename_i t tail hdrop
    split at h
    · rename_i hopen
      simp only [hdrop, List.isEmpty_cons, Bool.false_eq_true, if_false, List.cons_append, hopen,
        if_true]
      exact collectArguments_append 0 tail b as rest h
    · cases h

/-- If what follows a name is not blank, and no parenthesis, then it is so whatever comes later. -/
theorem takeArguments_append_of_absent {ts : List Token} (h : takeArguments ts = .absent)
    (hword : ∃ t ∈ ts, t.isSpace = false) (b : List Token) :
    takeArguments (ts ++ b) = .absent := by
  obtain ⟨word, hmem, hword⟩ := hword
  unfold takeArguments at h ⊢
  rw [List.dropWhile_append]
  split at h
  · rename_i hdrop
    have hblank : ∀ t ∈ ts, t.isSpace = true := List.dropWhile_eq_nil_iff.1 hdrop
    rw [hblank word hmem] at hword
    cases hword
  · rename_i t tail hdrop
    split at h
    · exact absurd h (collectArguments_ne_absent 0 tail)
    · rename_i hopen
      simp [hdrop, hopen]

/-! ## Expanding in two pieces -/

/-- The last token that is not blank. -/
def lastWord? (ts : List Token) : Option Token := (ts.filter fun t => !t.isSpace).getLast?

theorem lastWord?_cons_of_mem {t : Token} {ts : List Token} (h : ∃ u ∈ ts, u.isSpace = false) :
    lastWord? (t :: ts) = lastWord? ts := by
  obtain ⟨u, hu, hword⟩ := h
  have hne : (ts.filter fun t => !t.isSpace) ≠ [] :=
    List.ne_nil_of_mem (List.mem_filter.2 ⟨hu, by simp [hword]⟩)
  obtain ⟨first, rest, hcons⟩ := List.exists_cons_of_ne_nil hne
  simp only [lastWord?, List.filter_cons, hcons]
  split
  · rw [List.getLast?_cons_cons]
  · rfl

theorem lastWord?_cons_of_forall {t : Token} {ts : List Token} (ht : t.isSpace = false)
    (h : ∀ u ∈ ts, u.isSpace = true) : lastWord? (t :: ts) = some t := by
  have hnil : (ts.filter fun t => !t.isSpace) = [] := by simpa using h
  simp [lastWord?, ht, hnil]

/-- A name at the end of the tail is at the end of the whole. -/
theorem mem_lastWord?_cons {u t : Token} {ts : List Token} (h : u ∈ lastWord? ts) :
    u ∈ lastWord? (t :: ts) := by
  have hmem : u ∈ ts.filter fun t => !t.isSpace := List.mem_of_getLast? h
  have hword : ∃ u ∈ ts, u.isSpace = false := ⟨u, by simpa using List.mem_filter.1 hmem⟩
  rwa [lastWord?_cons_of_mem hword]

section

variable {table : MacroTable} {t : Token} {rest : List Token}

theorem expand_cons_of_plain (hm : table.macroAt? t = none) (rest : List Token) :
    expand table (t :: rest) = (expand table rest).map (t :: ·) := by
  rw [expand_cons, hm]
  cases expand table rest <;> rfl

theorem expand_cons_of_absent (hm : table.AwaitsArguments t) (hc : takeArguments rest = .absent) :
    expand table (t :: rest) = (expand table rest).map (t :: ·) := by
  obtain ⟨m, parameters, hm, hp⟩ := hm
  simp only [expand_cons, hm, hp, hc]
  cases expand table rest <;> rfl

theorem expand_cons_of_object {m : Macro} (hm : table.macroAt? t = some m)
    (hp : m.parameters = none) (rest : List Token) :
    expand table (t :: rest) = expand table (m.body.map (Token.hide t.trail) ++ rest) := by
  simp only [expand_cons, hm, hp]

theorem expand_cons_of_call {m : Macro} (hm : table.macroAt? t = some m)
    {parameters : List (List Char)} (hp : m.parameters = some parameters)
    {arguments : List (List Token)} {after : List Token}
    (hc : takeArguments rest = .complete arguments after) {matched expanded : List (List Token)}
    (ha : matchArguments parameters arguments = .ok matched)
    (hargs : matched.mapM (expand table) = .ok expanded) :
    expand table (t :: rest) =
      expand table ((substitute m.body parameters expanded).map (Token.hide t.trail) ++ after) := by
  simp only [expand_cons, hm, hp, hc, ha, hargs]
  rfl

end

theorem map_append_cons {x : Except ExpansionError (List Token)} (t : Token) (front : List Token) :
    (x.map (front ++ ·)).map (t :: ·) = x.map ((t :: front) ++ ·) := by
  cases x <;> rfl

/-- **A list is expanded in two pieces**, if the result of the first one does not end with a name
that awaits arguments. -/
theorem expand_append {table : MacroTable} {a ra : List Token} (ha : expand table a = .ok ra)
    (hend : ∀ t ∈ lastWord? ra, ¬ table.AwaitsArguments t) (b : List Token) :
    expand table (a ++ b) = (expand table b).map (ra ++ ·) := by
  induction a using (Worklist.sinks_wellFounded table.level).induction generalizing ra with
  | _ a ih =>
  cases a with
  | nil =>
    rw [expand_nil] at ha
    cases ha
    cases hb : expand table b <;> simp [hb, Except.map]
  | cons t rest =>
    have htail : Worklist.Sinks table.level rest (t :: rest) := sinks_tail (List.Sublist.refl rest)
    rw [List.cons_append]
    rcases unfolds_of_expand ha with ⟨hm, tail, htail', rfl⟩ | ⟨hm, hc, tail, htail', rfl⟩ |
      ⟨m, hm, hp, hexpand⟩ |
      ⟨m, hm, parameters, hp, arguments, after, hc, matched, expanded, hmatch, hargs, hexpand⟩
    · rw [expand_cons_of_plain hm, ih rest htail htail' fun u hu => hend u (mem_lastWord?_cons hu),
        map_append_cons]
    · -- there is something behind the name that is no parenthesis, or the name would be the last
      have hword : ∃ u ∈ rest, u.isSpace = false := by
        by_contra hblank
        simp only [not_exists, not_and, Bool.not_eq_false] at hblank
        have hrest : expand table rest = .ok rest :=
          expand_of_forall fun u hu => macroAt?_of_isSpace (hblank u hu) table
        rw [hrest] at htail'
        cases htail'
        have hspace : t.isSpace = false := by
          obtain ⟨m, -, hm, -⟩ := hm
          by_contra hspace
          rw [macroAt?_of_isSpace (by simpa using hspace)] at hm
          cases hm
        exact hend t (lastWord?_cons_of_forall hspace hblank) hm
      rw [expand_cons_of_absent hm (takeArguments_append_of_absent hc hword b),
        ih rest htail htail' fun u hu => hend u (mem_lastWord?_cons hu), map_append_cons]
    · rw [expand_cons_of_object hm hp, ← List.append_assoc]
      exact ih _ (sinks_replacement hm m.body (List.Sublist.refl rest)) hexpand hend
    · rw [expand_cons_of_call hm hp (takeArguments_append hc b) hmatch hargs, ← List.append_assoc]
      exact ih _ (sinks_replacement hm _ (sublist_of_takeArguments hc).2) hexpand hend

/-! ## Object-like macros -/

section

variable {table : MacroTable} (hobject : table.IsObjectLike)

include hobject

/-- No object-like macro is used in a wrong way. -/
theorem exists_expand_of_isObjectLike (ts : List Token) : ∃ out, expand table ts = .ok out := by
  induction ts using (Worklist.sinks_wellFounded table.level).induction with
  | _ ts ih =>
  cases ts with
  | nil => exact ⟨[], expand_nil table⟩
  | cons t rest =>
    rcases hm : table.macroAt? t with _ | m
    · obtain ⟨tail, htail⟩ := ih rest (sinks_tail (List.Sublist.refl rest))
      exact ⟨t :: tail, by rw [expand_cons_of_plain hm, htail]; rfl⟩
    · rw [expand_cons_of_object hm (hobject _ _ (MacroTable.macroAt?_eq_some_iff.1 hm).2.2)]
      exact ih _ (sinks_replacement hm m.body (List.Sublist.refl rest))

/-- Nothing of the result is the name of a macro any more. -/
theorem macroAt?_eq_none_of_mem_expand {ts out : List Token} (h : expand table ts = .ok out) :
    ∀ t ∈ out, table.macroAt? t = none := by
  intro t ht
  exact (eq_none_or_awaitsArguments_of_mem_expand h t ht).resolve_right
    (hobject.not_awaitsArguments t)

end

theorem macroAt?_eq_none_iff {table : MacroTable} {t : Token} :
    table.macroAt? t = none ↔
      (t.kind = .identifier → table.get? t.text = none ∨ t.text ∈ t.hidden) := by
  by_cases hkind : t.kind = .identifier
  · by_cases hmem : t.text ∈ t.hidden <;> simp [MacroTable.macroAt?, hkind, hmem]
  · simp [MacroTable.macroAt?, hkind]

/-- **Expansion works from the left to the right and does not look back.**  If a list is expanded
without an error, and its result does not end with a name of a function-like macro that could still
get arguments, blanks aside, then any list behind it is expanded as it is alone: the two results
stand one behind the other, and an error is the same one.  On a table of object-like macros nothing
is ever wrong, every list can be taken apart in this way, and expanding a result again changes
nothing: every name that is left in it is undefined, or hidden where it stands. -/
theorem expand_leftToRight (table : MacroTable) :
    (∀ a ra, expand table a = .ok ra → (∀ t ∈ lastWord? ra, ¬ table.AwaitsArguments t) →
      ∀ b, expand table (a ++ b) = (expand table b).map (ra ++ ·)) ∧
    (table.IsObjectLike → ∀ a, ∃ ra, expand table a = .ok ra ∧
      (∀ b, expand table (a ++ b) = (expand table b).map (ra ++ ·)) ∧
      expand table ra = .ok ra ∧
      ∀ t ∈ ra, t.kind = .identifier → table.get? t.text = none ∨ t.text ∈ t.hidden) := by
  refine ⟨fun a ra ha hend => expand_append ha hend, fun hobject a => ?_⟩
  obtain ⟨ra, ha⟩ := exists_expand_of_isObjectLike hobject a
  have hnone := macroAt?_eq_none_of_mem_expand hobject ha
  refine ⟨ra, ha, fun b => ?_, expand_of_forall hnone,
    fun t ht => macroAt?_eq_none_iff.1 (hnone t ht)⟩
  exact expand_append ha (fun t _ => hobject.not_awaitsArguments t) b

/-- A function-like macro whose body ends with its own name. -/
def trailingTable : MacroTable := ⟨[(['F'], .function [['x']] "x F".toList)]⟩

/-- An object-like macro that is another one, and that one it. -/
def swappingTable : MacroTable :=
  ⟨[(['P'], .object "Q".toList), (['Q'], .object "P".toList)]⟩

/-- `F(1)` becomes `1 F`, and that `F` does not take the `(2)` behind it for arguments; and `P`
becomes `P` by way of `Q`. -/
theorem expand_leftToRight_trailing :
    let ra : List Token := [⟨.number, ['1'], [['F']]⟩, ⟨.space, [' '], [['F']]⟩,
      ⟨.identifier, ['F'], [['F']]⟩]
    let rb : List Token := [⟨.punctuator, ['('], []⟩, ⟨.number, ['2'], []⟩,
      ⟨.punctuator, [')'], []⟩]
    (expand trailingTable (tokenize "F(1)".toList) = .ok ra ∧
      (∀ t ∈ lastWord? ra, ¬ trailingTable.AwaitsArguments t) ∧
      expand trailingTable (tokenize "F(1)".toList ++ tokenize "(2)".toList) = .ok (ra ++ rb)) ∧
    swappingTable.IsObjectLike ∧
      ∃ ra, expand swappingTable (tokenize "P".toList) = .ok ra ∧
        expand swappingTable ra = .ok ra := by
  intro ra rb
  have ha : expand trailingTable (tokenize "F(1)".toList) = .ok ra :=
    Machine.expand_eq_of_halted (n := 8) (by decide +kernel)
  have hb : expand trailingTable (tokenize "(2)".toList) = .ok rb :=
    Machine.expand_eq_of_halted (n := 4) (by decide +kernel)
  have hend : ∀ t ∈ lastWord? ra, ¬ trailingTable.AwaitsArguments t := by
    rintro t ht ⟨m, parameters, hm, -⟩
    cases ht
    cases hm
  have hobject : swappingTable.IsObjectLike := by
    intro name m hm
    have hmem := MacroTable.mem_names_of_get? hm
    simp only [MacroTable.names, swappingTable, List.map_cons, List.map_nil, List.mem_cons,
      List.not_mem_nil, or_false] at hmem
    rcases hmem with rfl | rfl
    · cases hm
      rfl
    · cases hm
      rfl
  obtain ⟨out, hout, -, hagain, -⟩ :=
    (expand_leftToRight swappingTable).2 hobject (tokenize "P".toList)
  refine ⟨⟨ha, hend, ?_⟩, hobject, out, hout, hagain⟩
  rw [(expand_leftToRight trailingTable).1 _ ra ha hend, hb]
  rfl

end Preprocess
end ShaderKit
