import ShaderKit.Preprocess.Token

/-!
# Macros and the table of macros

A macro without parameters is an object-like one and stands for its body; one with a parameter
list — an empty list counts — is function-like and needs arguments.  The body is stored as tokens,
blank ones at its ends left out.

The table maps names to macros.  It is observed through `get?` alone: the lemmas say what each
operation does to that view.  `define?` is what a source text may do, `insert` what a definition
from outside does: a source cannot change what a name means, except by removing it first.  Blanks
inside a body are all alike when two definitions are compared (`Macro.sameDefinition`).
-/

set_option autoImplicit false

namespace ShaderKit
namespace Preprocess

/-- A macro. -/
structure Macro where
  /-- The names of the parameters, or `none` for an object-like macro. -/
  parameters : Option (List (List Char))
  body : List Token
  deriving DecidableEq, Repr

namespace Macro

/-- The object-like macro that stands for a text. -/
def object (text : List Char) : Macro := ⟨none, tokenizeTrimmed text⟩

/-- The function-like macro that stands for a text. -/
def function (parameters : List (List Char)) (text : List Char) : Macro :=
  ⟨some parameters, tokenizeTrimmed text⟩

/-- A body as far as comparing it goes: the texts of the tokens, with one blank for each blank
token. -/
def shape (body : List Token) : List (List Char) :=
  body.map fun t => if t.isSpace then [' '] else t.text

/-- Whether two macros are written alike, the lengths of blanks aside. -/
def sameDefinition (m₁ m₂ : Macro) : Bool :=
  m₁.parameters = m₂.parameters && shape m₁.body = shape m₂.body

end Macro

/-- The macros that are defined, by name. -/
structure MacroTable where
  entries : List (List Char × Macro) := []
  deriving DecidableEq, Repr

namespace MacroTable

/-- What a name stands for. -/
def get? (table : MacroTable) (name : List Char) : Option Macro := table.entries.lookup name

/-- Whether a name is defined. -/
def isDefined (table : MacroTable) (name : List Char) : Bool := (table.get? name).isSome

/-- The names that are defined. -/
def names (table : MacroTable) : List (List Char) := table.entries.map (·.1)

/-- The table without a name. -/
def erase (table : MacroTable) (name : List Char) : MacroTable :=
  ⟨table.entries.filter (·.1 ≠ name)⟩

/-- The table with a name defined, whatever it stood for. -/
def insert (table : MacroTable) (name : List Char) (m : Macro) : MacroTable :=
  ⟨(name, m) :: (table.erase name).entries⟩

/-- The table with a name defined, unless it already stands for something else. -/
def define? (table : MacroTable) (name : List Char) (m : Macro) : Option MacroTable :=
  match table.get? name with
  | some old => if old.sameDefinition m then some (table.insert name m) else none
  | none => some (table.insert name m)

theorem get?_eq_none_of_not_mem {table : MacroTable} {name : List Char} (h : name ∉ table.names) :
    table.get? name = none := by
  simp only [get?, List.lookup_eq_none_iff, bne_iff_ne]
  exact fun e he hname => h (hname ▸ List.mem_map_of_mem he)

theorem mem_names_of_get? {table : MacroTable} {name : List Char} {m : Macro}
    (h : table.get? name = some m) : name ∈ table.names :=
  Decidable.byContradiction fun hn => by simp [get?_eq_none_of_not_mem hn] at h

theorem get?_erase (table : MacroTable) (name other : List Char) :
    (table.erase name).get? other = if other = name then none else table.get? other := by
  obtain ⟨entries⟩ := table
  induction entries with
  | nil => simp [erase, get?]
  | cons e entries ih =>
    obtain ⟨key, m⟩ := e
    simp only [erase, get?, List.filter_cons] at ih ⊢
    by_cases hk : key = name
    · subst hk
      by_cases ho : other = key
      · simpa [ho] using ih
      · have : (other == key) = false := by simpa using ho
        simpa [ho, List.lookup_cons, this] using ih
    · by_cases ho : other = key
      · subst ho; simp [hk]
      · have : (other == key) = false := by simpa using ho
        simpa [hk, List.lookup_cons, this] using ih

theorem get?_insert (table : MacroTable) (name other : List Char) (m : Macro) :
    (table.insert name m).get? other = if other = name then some m else table.get? other := by
  by_cases ho : other = name
  · subst ho; simp [insert, get?]
  · have hne : (other == name) = false := by simpa using ho
    have := get?_erase table name other
    simp only [ho, if_false] at this
    simpa [insert, get?, List.lookup_cons, hne, ho] using this

end MacroTable
end Preprocess
end ShaderKit
