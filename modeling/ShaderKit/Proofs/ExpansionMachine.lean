import Mathlib.Data.List.Chain
import Mathlib.Data.List.Dedup
import Mathlib.Data.List.Perm.Subperm
import Mathlib.Logic.Function.Iterate
import ShaderKit.Preprocess.Expansion

/-!
# Expansion, one step at a time

`expand` is defined by a recursion that Lean has been told to be well founded.  What it does can
also be done by a machine that knows nothing of that: it has the tokens still to be read, the tokens
put out, and a stack of macro calls that wait for their arguments to be expanded, and it does one
thing at a time (`Machine.step`).  Nothing in the machine says that it ever stops — every
replacement makes its input longer, and every argument is a new piece of work.

That it stops is a theorem here, and that it has then found what `expand` says
(`Machine.reaches_halted`).  The induction is on the input, ordered by `Worklist.Sinks`: there is
one order for the rest of the input, for what a macro is replaced by, and for its arguments.

The second half looks at which names a run expands.  A name is *nested* in another one if it comes,
perhaps through arguments of further calls, from a token that expanding the other one has produced.
Such a token hides the other name and everything the other one hid, so the names along a chain of
nested expansions are all different.
-/

set_option autoImplicit false

namespace ShaderKit
namespace Preprocess

/-! ## The machine -/

/-- A macro call whose arguments are being expanded: the ones that are done, the ones that wait,
and what there was to go on with after the call. -/
structure Call where
  name : Token
  parameters : List (List Char)
  body : List Token
  expanded : List (List Token)
  waiting : List (List Token)
  after : List Token
  output : List Token
  deriving DecidableEq, Repr

/-- What the machine is about to do. -/
inductive Machine where
  /-- Read on in an input; when it is used up, the output goes to the innermost call. -/
  | reading (input output : List Token) (calls : List Call)
  /-- Put tokens in the place of a name. -/
  | replacing (name : Token) (replacement after output : List Token) (calls : List Call)
  /-- Nothing any more. -/
  | halted (outcome : Except ExpansionError (List Token))
  deriving DecidableEq

namespace Machine

/-- Goes on with a call: with the next argument, or with the replacement if there is none left. -/
def proceed (c : Call) (calls : List Call) : Machine :=
  match c.waiting with
  | [] => replacing c.name (substitute c.body c.parameters c.expanded) c.after c.output calls
  | argument :: waiting => reading argument [] ({ c with waiting } :: calls)

/-- One step. -/
def step (table : MacroTable) : Machine → Machine
  | halted outcome => halted outcome
  | replacing name replacement after output calls =>
    reading (replacement.map (Token.hide name.trail) ++ after) output calls
  | reading [] output [] => halted (.ok output)
  | reading [] output (c :: calls) =>
    proceed { c with expanded := c.expanded ++ [output] } calls
  | reading (t :: rest) output calls =>
    match table.macroAt? t with
    | none => reading rest (output ++ [t]) calls
    | some m =>
      match m.parameters with
      | none => replacing t m.body rest output calls
      | some parameters =>
        match takeArguments rest with
        | .absent => reading rest (output ++ [t]) calls
        | .unterminated => halted (.error (.unterminatedArguments t.text))
        | .complete arguments after =>
          match matchArguments parameters arguments with
          | .error got => halted (.error (.argumentCount t.text parameters.length got))
          | .ok arguments =>
            proceed ⟨t, parameters, m.body, [], arguments, after, output⟩ calls

/-- Some number of steps leads from one state to the other. -/
def Reaches (table : MacroTable) (a b : Machine) : Prop := ∃ n, (step table)^[n] a = b

variable {table : MacroTable}

theorem Reaches.refl (a : Machine) : Reaches table a a := ⟨0, rfl⟩

theorem Reaches.trans {a b c : Machine} (hab : Reaches table a b) (hbc : Reaches table b c) :
    Reaches table a c := by
  obtain ⟨m, rfl⟩ := hab
  obtain ⟨n, rfl⟩ := hbc
  exact ⟨n + m, Function.iterate_add_apply _ n m a⟩

theorem Reaches.head {a b c : Machine} (hab : step table a = b) (hbc : Reaches table b c) :
    Reaches table a c :=
  Reaches.trans ⟨1, hab⟩ hbc

theorem Reaches.tail {a b c : Machine} (hab : Reaches table a b) (hbc : step table b = c) :
    Reaches table a c :=
  hab.trans ⟨1, hbc⟩

/-- What can stand at the head of an input, with what `expand` makes of it and what the machine
does next.  Everything below that depends on the first token is a case distinction along these. -/
inductive Head (table : MacroTable) (t : Token) (rest : List Token) : Prop
  | plain (hexpand : expand table (t :: rest) = do return t :: (← expand table rest))
      (hstep : ∀ output calls,
        step table (reading (t :: rest) output calls) = reading rest (output ++ [t]) calls)
  | wrong (e : ExpansionError) (hexpand : expand table (t :: rest) = .error e)
      (hstep : ∀ output calls,
        step table (reading (t :: rest) output calls) = halted (.error e))
  | object (m : Macro) (hm : table.macroAt? t = some m)
      (hexpand : expand table (t :: rest) =
        expand table (m.body.map (Token.hide t.trail) ++ rest))
      (hstep : ∀ output calls,
        step table (reading (t :: rest) output calls) = replacing t m.body rest output calls)
  | call (m : Macro) (hm : table.macroAt? t = some m) (parameters : List (List Char))
      (arguments : List (List Token)) (after : List Token)
      (harguments : ∀ a ∈ arguments, a.Sublist rest) (hafter : after.Sublist rest)
      (hexpand : expand table (t :: rest) =
        (arguments.mapM (expand table) >>= fun expanded =>
          expand table
            ((substitute m.body parameters expanded).map (Token.hide t.trail) ++ after)))
      (hstep : ∀ output calls,
        step table (reading (t :: rest) output calls) =
          proceed ⟨t, parameters, m.body, [], arguments, after, output⟩ calls)

theorem head (table : MacroTable) (t : Token) (rest : List Token) : Head table t rest := by
  have hexpand := expand_cons table t rest
  cases hm : table.macroAt? t with
  | none =>
    simp only [hm] at hexpand
    exact .plain hexpand fun output calls => by simp only [step, hm]
  | some m =>
    cases hp : m.parameters with
    | none =>
      simp only [hm, hp] at hexpand
      exact .object m hm hexpand fun output calls => by simp only [step, hm, hp]
    | some parameters =>
      cases hc : takeArguments rest with
      | absent =>
        simp only [hm, hp, hc] at hexpand
        exact .plain hexpand fun output calls => by simp only [step, hm, hp, hc]
      | unterminated =>
        simp only [hm, hp, hc] at hexpand
        exact .wrong _ hexpand fun output calls => by simp only [step, hm, hp, hc]
      | complete arguments after =>
        obtain ⟨hsub, hafter⟩ := sublist_of_takeArguments hc
        cases ha : matchArguments parameters arguments with
        | error got =>
          simp only [hm, hp, hc, ha] at hexpand
          exact .wrong _ hexpand fun output calls => by simp only [step, hm, hp, hc, ha]
        | ok matched =>
          simp only [hm, hp, hc, ha] at hexpand
          exact .call m hm parameters matched after (sublist_of_matchArguments ha hsub) hafter
            hexpand fun output calls => by simp only [step, hm, hp, hc, ha]

/-! ## It stops -/

/-- The state in which an input has been read, with the result that `expand` gives for it. -/
def finished (output : List Token) (calls : List Call) :
    Except ExpansionError (List Token) → Machine
  | .ok ts => reading [] (output ++ ts) calls
  | .error e => halted (.error e)

/-- The state in which the arguments of a call are all expanded. -/
def answered (c : Call) (calls : List Call) :
    Except ExpansionError (List (List Token)) → Machine
  | .ok arguments =>
    replacing c.name (substitute c.body c.parameters (c.expanded ++ arguments)) c.after c.output
      calls
  | .error e => halted (.error e)

/-- If the machine can read every argument that waits, it can answer the call. -/
theorem reaches_answered (c : Call) (calls : List Call)
    (h : ∀ a ∈ c.waiting, ∀ output calls,
      Reaches table (reading a output calls) (finished output calls (expand table a))) :
    Reaches table (proceed c calls) (answered c calls (c.waiting.mapM (expand table))) := by
  obtain ⟨name, parameters, body, expanded, waiting, after, output⟩ := c
  induction waiting generalizing expanded with
  | nil =>
    have hdone : answered ⟨name, parameters, body, expanded, [], after, output⟩ calls (.ok []) =
        proceed ⟨name, parameters, body, expanded, [], after, output⟩ calls := by
      simp [answered, proceed]
    rw [List.mapM_nil]
    exact hdone ▸ Reaches.refl _
  | cons a waiting ih =>
    have hread := h a (by simp) []
      (⟨name, parameters, body, expanded, waiting, after, output⟩ :: calls)
    rw [List.mapM_cons]
    cases hexp : expand table a with
    | error e =>
      rw [hexp] at hread
      exact hread
    | ok ts =>
      rw [hexp, finished, List.nil_append] at hread
      have hrest := ih (expanded ++ [ts]) fun b hb => h b (List.mem_cons_of_mem a hb)
      refine (hread.tail rfl).trans ?_
      cases hall : waiting.mapM (expand table) with
      | error e =>
        rw [hall] at hrest
        exact hrest
      | ok us =>
        rw [hall, answered, List.append_assoc] at hrest
        exact hrest

/-- **Expansion stops.**  However the input is made up, the machine reads it to its end, or to the
first call that is wrong, and has then found what `expand` says. -/
theorem reaches_finished (table : MacroTable) (input output : List Token) (calls : List Call) :
    Reaches table (reading input output calls) (finished output calls (expand table input)) := by
  induction input using (Worklist.sinks_wellFounded table.level).induction
    generalizing output calls with
  | _ input ih =>
  cases input with
  | nil =>
    rw [expand_nil, finished, List.append_nil]
    exact Reaches.refl _
  | cons t rest =>
    cases head table t rest with
    | plain hexpand hstep =>
      have hrest := ih rest (sinks_tail (List.Sublist.refl rest)) (output ++ [t]) calls
      refine Reaches.head (hstep output calls) ?_
      rw [hexpand]
      cases hexp : expand table rest with
      | error e =>
        rw [hexp] at hrest
        exact hrest
      | ok ts =>
        rw [hexp, finished, List.append_assoc] at hrest
        exact hrest
    | wrong e hexpand hstep =>
      rw [hexpand]
      exact Reaches.head (hstep output calls) (Reaches.refl _)
    | object m hm hexpand hstep =>
      rw [hexpand]
      refine Reaches.head (hstep output calls) (Reaches.head rfl ?_)
      exact ih _ (sinks_replacement hm m.body (List.Sublist.refl rest)) output calls
    | call m hm parameters arguments after harguments hafter hexpand hstep =>
      have hwaiting : ∀ a ∈ arguments, ∀ output calls,
          Reaches table (reading a output calls) (finished output calls (expand table a)) :=
        fun a ha => ih a (sinks_tail (harguments a ha))
      have hcall := reaches_answered ⟨t, parameters, m.body, [], arguments, after, output⟩ calls
        hwaiting
      rw [hexpand]
      refine Reaches.head (hstep output calls) (hcall.trans ?_)
      cases hall : arguments.mapM (expand table) with
      | error e => exact Reaches.refl _
      | ok expanded =>
        refine Reaches.head rfl ?_
        exact ih _ (sinks_replacement hm _ hafter) output calls

theorem reaches_halted (table : MacroTable) (input : List Token) :
    Reaches table (reading input [] []) (halted (expand table input)) := by
  have h := reaches_finished table input [] []
  cases hexp : expand table input with
  | error e =>
    rw [hexp] at h
    exact h
  | ok ts =>
    rw [hexp] at h
    exact h.tail rfl

/-- What the machine halts with, after any number of steps, is what `expand` gives; so an expansion
can be run step by step. -/
theorem expand_eq_of_halted {input : List Token} {n : Nat}
    {outcome : Except ExpansionError (List Token)}
    (h : (step table)^[n] (reading input [] []) = halted outcome) :
    expand table input = outcome := by
  obtain ⟨m, hm⟩ := reaches_halted table input
  have hstays (outcome : Except ExpansionError (List Token)) (k : Nat) :
      (step table)^[k] (halted outcome) = halted outcome := Function.iterate_fixed rfl k
  have hlater : (step table)^[n + m] (reading input [] []) = halted (expand table input) := by
    rw [Function.iterate_add_apply, hm, hstays]
  have hsame : (step table)^[n + m] (reading input [] []) = halted outcome := by
    rw [Nat.add_comm, Function.iterate_add_apply, h, hstays]
  rw [hlater] at hsame
  exact Machine.halted.inj hsame

/-! ## Which names a run expands -/

/-- A token may hide more names in the course of a run, because it is handed on as an argument; it
is otherwise the same for good. -/
def Becomes (x y : Token) : Prop := ∃ names, y = x.hide names

theorem Becomes.refl (x : Token) : Becomes x x := ⟨[], rfl⟩

theorem Becomes.hidden_subset {x y : Token} (h : Becomes x y) : x.hidden ⊆ y.hidden := by
  obtain ⟨names, rfl⟩ := h
  exact fun name hname => Token.mem_hidden_hide.2 (Or.inl hname)

section Run

variable (table : MacroTable) (input : List Token)

/-- A run on the input comes to putting tokens in the place of a name. -/
def Replaces (name : Token) (replacement : List Token) : Prop :=
  ∃ after output calls,
    Reaches table (reading input [] []) (replacing name replacement after output calls)

/-- A run on the input expands a name. -/
def Expands (name : Token) : Prop := ∃ replacement, Replaces table input name replacement

/-- A run on the input produces a token by expanding a name. -/
def Produces (name x : Token) : Prop :=
  ∃ replacement, Replaces table input name replacement ∧
    x ∈ replacement.map (Token.hide name.trail)

/-- The one name is expanded, and comes from a token that expanding the other one produced. -/
def Nested (outer inner : Token) : Prop :=
  Expands table input inner ∧ ∃ x, Produces table input outer x ∧ Becomes x inner

/-- A token comes from the input, or from a token that an expansion produced. -/
def HasOrigin (y : Token) : Prop :=
  (∃ x ∈ input, Becomes x y) ∨ ∃ name x, Produces table input name x ∧ Becomes x y

/-- What is known of a call that waits for its arguments. -/
structure SoundCall (c : Call) : Prop where
  isMacro : table.macroAt? c.name ≠ none
  name : HasOrigin table input c.name
  waiting : ∀ a ∈ c.waiting, ∀ y ∈ a, HasOrigin table input y
  after : ∀ y ∈ c.after, HasOrigin table input y

/-- What is known of every state of a run: what will be read has an origin, and what is replaced is
a macro, and has one too. -/
def Sound : Machine → Prop
  | reading rest _ calls =>
    (∀ y ∈ rest, HasOrigin table input y) ∧ ∀ c ∈ calls, SoundCall table input c
  | replacing name _ after _ calls =>
    table.macroAt? name ≠ none ∧ HasOrigin table input name ∧
      (∀ y ∈ after, HasOrigin table input y) ∧ ∀ c ∈ calls, SoundCall table input c
  | halted _ => True

variable {table input}

theorem sound_proceed {c : Call} {calls : List Call} (hc : SoundCall table input c)
    (hcalls : ∀ d ∈ calls, SoundCall table input d) : Sound table input (proceed c calls) := by
  obtain ⟨name, parameters, body, expanded, waiting, after, output⟩ := c
  cases waiting with
  | nil => exact ⟨hc.isMacro, hc.name, hc.after, hcalls⟩
  | cons a waiting =>
    refine ⟨hc.waiting a (by simp), fun d hd => ?_⟩
    rcases List.mem_cons.1 hd with rfl | hd
    · exact ⟨hc.isMacro, hc.name, fun b hb => hc.waiting b (List.mem_cons_of_mem a hb), hc.after⟩
    · exact hcalls d hd

/-- One step from a state of a run keeps what is known. -/
theorem sound_step {m : Machine} (hm : Reaches table (reading input [] []) m)
    (h : Sound table input m) : Sound table input (step table m) := by
  cases m with
  | halted outcome => trivial
  | replacing name replacement after output calls =>
    obtain ⟨-, -, hafter, hcalls⟩ := h
    refine ⟨fun y hy => ?_, hcalls⟩
    rcases List.mem_append.1 hy with hy | hy
    · exact Or.inr ⟨name, y, ⟨replacement, ⟨after, output, calls, hm⟩, hy⟩, Becomes.refl y⟩
    · exact hafter y hy
  | reading rest output calls =>
    obtain ⟨hrest, hcalls⟩ := h
    cases rest with
    | nil =>
      cases calls with
      | nil => trivial
      | cons c calls =>
        have hc := hcalls c (by simp)
        exact sound_proceed ⟨hc.isMacro, hc.name, hc.waiting, hc.after⟩
          fun d hd => hcalls d (List.mem_cons_of_mem c hd)
    | cons t rest =>
      have ht := hrest t (by simp)
      have htail : ∀ {l : List Token}, l.Sublist rest → ∀ y ∈ l, HasOrigin table input y :=
        fun hl y hy => hrest y (List.mem_cons_of_mem t (hl.subset hy))
      cases head table t rest with
      | plain hexpand hstep =>
        rw [hstep]
        exact ⟨htail (List.Sublist.refl rest), hcalls⟩
      | wrong e hexpand hstep =>
        rw [hstep]
        trivial
      | object m hm hexpand hstep =>
        rw [hstep]
        exact ⟨by simp [hm], ht, htail (List.Sublist.refl rest), hcalls⟩
      | call m hm parameters arguments after harguments hafter hexpand hstep =>
        rw [hstep]
        exact sound_proceed
          ⟨by simp [hm], ht, fun a ha => htail (harguments a ha), htail hafter⟩ hcalls

/-- **What is known of every state of a run.** -/
theorem sound_of_reaches {m : Machine} (hm : Reaches table (reading input [] []) m) :
    Sound table input m := by
  obtain ⟨n, rfl⟩ := hm
  induction n with
  | zero => exact ⟨fun y hy => Or.inl ⟨y, hy, Becomes.refl y⟩, by simp⟩
  | succ n ih =>
    rw [Function.iterate_succ_apply']
    exact sound_step ⟨n, rfl⟩ ih

theorem macroAt?_of_expands {name : Token} (h : Expands table input name) :
    ∃ m, table.macroAt? name = some m := by
  obtain ⟨replacement, after, output, calls, hm⟩ := h
  exact Option.ne_none_iff_exists'.1 (sound_of_reaches hm).1

theorem hasOrigin_of_expands {name : Token} (h : Expands table input name) :
    HasOrigin table input name := by
  obtain ⟨replacement, after, output, calls, hm⟩ := h
  exact (sound_of_reaches hm).2.1

/-! ## Chains of nested expansions -/

/-- A token hides all that another one leaves behind where it is expanded. -/
def Covers (inner outer : Token) : Prop := outer.trail ⊆ inner.hidden

theorem Covers.trans {s t u : Token} (hst : Covers t s) (htu : Covers u t) : Covers u s :=
  fun _ hname => htu (List.mem_append_left _ (hst hname))

theorem covers_of_nested {outer inner : Token} (h : Nested table input outer inner) :
    Covers inner outer := by
  obtain ⟨-, x, ⟨replacement, -, hx⟩, hbecomes⟩ := h
  obtain ⟨y, -, rfl⟩ := List.mem_map.1 hx
  exact fun name hname => hbecomes.hidden_subset (Token.mem_hidden_hide.2 (Or.inr hname))

/-- Along a chain, a name covers every name before it. -/
theorem pairwise_covers {chain : List Token} (h : chain.IsChain (Nested table input)) :
    chain.Pairwise fun s t => Covers t s := by
  have : Trans (fun s t => Covers t s) (fun s t => Covers t s) (fun s t => Covers t s) :=
    ⟨Covers.trans⟩
  exact List.isChain_iff_pairwise.1 (h.imp fun _ _ => covers_of_nested)

/-- The names along a chain of nested expansions are all different. -/
theorem nodup_of_chain {chain : List Token} (hexp : ∀ name ∈ chain, Expands table input name)
    (h : chain.IsChain (Nested table input)) : (chain.map Token.text).Nodup := by
  rw [List.Nodup, List.pairwise_map]
  refine (pairwise_covers h).imp_of_mem fun {s t} _ ht hst heq => ?_
  obtain ⟨m, hm⟩ := macroAt?_of_expands (hexp t ht)
  refine (MacroTable.macroAt?_eq_some_iff.1 hm).2.1 (hst ?_)
  simp [Token.trail, heq]

theorem length_le_of_chain {chain : List Token} (hexp : ∀ name ∈ chain, Expands table input name)
    (h : chain.IsChain (Nested table input)) : chain.length ≤ table.names.dedup.length := by
  have hsub : chain.map Token.text ⊆ table.names.dedup := by
    intro text htext
    obtain ⟨name, hname, rfl⟩ := List.mem_map.1 htext
    obtain ⟨m, hm⟩ := macroAt?_of_expands (hexp name hname)
    exact List.mem_dedup.2 (MacroTable.mem_names_of_get? (MacroTable.macroAt?_eq_some_iff.1 hm).2.2)
  rw [← List.length_map Token.text]
  exact (List.Nodup.subperm (nodup_of_chain hexp h) hsub).length_le

end Run

/-- **Expansion terminates, and no macro is expanded inside itself.**  On every table and every
input, whatever it hides, the machine comes to a halt with the result of `expand`, the calls for the
arguments included.  Every name it expands comes from the input or from a token that an expansion
produced; and along every chain of nested expansions the names are different, so that no chain is
longer than there are macros. -/
theorem expansion_terminates (table : MacroTable) (input : List Token) :
    (∃ n, (step table)^[n] (reading input [] []) = halted (expand table input)) ∧
      (∀ name, Expands table input name → HasOrigin table input name) ∧
      ∀ chain : List Token, (∀ name ∈ chain, Expands table input name) →
        chain.IsChain (Nested table input) →
          (chain.map Token.text).Nodup ∧ chain.length ≤ table.names.dedup.length :=
  ⟨reaches_halted table input, fun _ => hasOrigin_of_expands,
    fun _ hexp h => ⟨nodup_of_chain hexp h, length_le_of_chain hexp h⟩⟩

/-- Two macros that stand for each other. -/
def mutualTable : MacroTable :=
  ⟨[(['P'], ⟨none, [⟨.identifier, ['Q'], []⟩]⟩), (['Q'], ⟨none, [⟨.identifier, ['P'], []⟩]⟩)]⟩

/-- In the expansion of `P` by two macros that stand for each other, `Q` is nested in `P`. -/
theorem expansion_terminates_mutual :
    let p : Token := ⟨.identifier, ['P'], []⟩
    let q : Token := ⟨.identifier, ['Q'], [['P']]⟩
    (∀ name ∈ [p, q], Expands mutualTable [p] name) ∧ [p, q].IsChain (Nested mutualTable [p]) ∧
      ([p, q].map Token.text).Nodup ∧ [p, q].length ≤ mutualTable.names.dedup.length := by
  intro p q
  have hp : Replaces mutualTable [p] p [⟨.identifier, ['Q'], []⟩] := ⟨[], [], [], 1, rfl⟩
  have hq : Replaces mutualTable [p] q [⟨.identifier, ['P'], []⟩] := ⟨[], [], [], 3, rfl⟩
  have hexp : ∀ name ∈ [p, q], Expands mutualTable [p] name := by
    simp only [List.mem_cons, List.not_mem_nil, or_false, forall_eq_or_imp, forall_eq]
    exact ⟨⟨_, hp⟩, ⟨_, hq⟩⟩
  have hchain : [p, q].IsChain (Nested mutualTable [p]) :=
    .cons_cons ⟨⟨_, hq⟩, q, ⟨_, hp, by decide⟩, Becomes.refl q⟩ (.singleton q)
  exact ⟨hexp, hchain, (expansion_terminates mutualTable [p]).2.2 [p, q] hexp hchain⟩

end Machine
end Preprocess
end ShaderKit
