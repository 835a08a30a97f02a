import ShaderKit.Preprocess.Directive

/-!
# Conditional groups

The groups that are open at a line, innermost first, and what a conditional directive does to them.
Only the innermost group is ever changed.  A line is kept if the innermost group says so, or if
there is none (`Group.keeps`).

A group remembers four things: whether its present branch is kept; whether a branch of it has been
kept already, or can no longer be; whether the lines around the group are kept; and whether its
`#else` has been seen.  A group inside a part that is not kept begins as if a branch had been kept
already, so none of its branches will be, and none of its conditions is ever evaluated.

A condition that cannot be evaluated is a fault and does not hold; the group is opened all the same.
-/

set_option autoImplicit false

namespace ShaderKit
namespace Preprocess

/-- An open conditional group. -/
structure Group where
  /-- The lines of the present branch are kept. -/
  active : Bool
  /-- A branch has been kept already, or can no longer be. -/
  taken : Bool
  /-- The lines around the group are kept. -/
  outerActive : Bool
  /-- The present branch is the one after `#else`. -/
  seenElse : Bool
  deriving DecidableEq, Repr

namespace Group

/-- Whether lines are kept inside the given groups. -/
def keeps : List Group → Bool
  | [] => true
  | g :: _ => g.active

/-- The group that a condition opens. -/
def opened (outerActive holds : Bool) : Group :=
  { active := outerActive && holds, taken := !outerActive || holds, outerActive, seenElse := false }

/-- The groups after a directive that opens one. -/
def openWith (table : MacroTable) (opening : Opening) (arguments : List Char)
    (groups : List Group) : List Group × Option Fault :=
  let outer := keeps groups
  if outer then
    match openingHolds table opening arguments with
    | .ok holds => (opened outer holds :: groups, none)
    | .error fault => (opened outer false :: groups, some fault)
  else (opened outer false :: groups, none)

/-- The innermost group after `#elif`. -/
def elif (table : MacroTable) (arguments : List Char) (g : Group) : Except Fault Group :=
  if g.seenElse then .error .elifAfterElse
  else if g.taken then .ok { g with active := false }
  else do
    let holds ← condition table arguments
    return { g with active := holds, taken := holds }

/-- The innermost group after `#else`. -/
def otherwise (g : Group) : Except Fault Group :=
  if g.seenElse then .error .elseAfterElse
  else .ok { g with active := g.outerActive && !g.taken, taken := true, seenElse := true }

/-- Changes the innermost group; `missing` is the fault if there is none. -/
def modifyInnermost (missing : Fault) (change : Group → Except Fault Group)
    (groups : List Group) : List Group × Option Fault :=
  match groups with
  | [] => ([], some missing)
  | g :: outer =>
    match change g with
    | .ok g' => (g' :: outer, none)
    | .error fault => (g :: outer, some fault)

/-- The groups after a conditional directive, and the fault in it. -/
def apply (table : MacroTable) (c : Conditional) (groups : List Group) :
    List Group × Option Fault :=
  match c with
  | .opens opening arguments => openWith table opening arguments groups
  | .elif arguments => modifyInnermost .elifWithoutIf (elif table arguments) groups
  | .otherwise => modifyInnermost .elseWithoutIf otherwise groups
  | .endif =>
    match groups with
    | [] => ([], some .endifWithoutIf)
    | _ :: outer => (outer, none)

end Group
end Preprocess
end ShaderKit
