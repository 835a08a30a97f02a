import ShaderKit.Bytecode.Word
import ShaderKit.Text.Utf8

/-!
# The constant table

A comment in a shader may hold a table of the names that its registers had in the source.  The table
is read by offsets from its own start: a header of 28 bytes, then, wherever the header says, twenty
bytes for each constant, and strings anywhere that end at a zero byte.  Nothing keeps these parts
from overlapping, and the reading does not mind.

`ConstantTable.parse` refuses a table only if a part that is needed lies outside it, if a string
does not end, or if a register set is unknown.  Parts are asked for in the order in which they are
listed above, and the strings of the header come last.
-/

set_option autoImplicit false

namespace ShaderKit
namespace Bytecode

/-- The sets of registers that a table tells apart. -/
inductive RegisterSet where
  | bool
  | int4
  | float4
  | sampler
  deriving DecidableEq, Repr

namespace RegisterSet

def all : List RegisterSet := [bool, int4, float4, sampler]

/-- The set that a number stands for. -/
def ofNumber? (n : Nat) : Option RegisterSet := all[n]?

end RegisterSet

/-- A named constant: where its registers begin, and how many there are. -/
structure TableEntry where
  name : String
  registerSet : RegisterSet
  registerIndex : Nat
  registerCount : Nat
  deriving DecidableEq, Repr

namespace TableEntry

/-- Whether a register belongs to a constant.  A constant has one register at least, whatever it
says. -/
def covers (e : TableEntry) (set : RegisterSet) (register : Nat) : Bool :=
  e.registerSet = set && e.registerIndex ≤ register &&
    register < e.registerIndex + max e.registerCount 1

end TableEntry

/-- A constant table. -/
structure ConstantTable where
  creator : Option String
  target : Option String
  constants : List TableEntry
  deriving DecidableEq, Repr

namespace ConstantTable

/-- The first constant that a register belongs to. -/
def find? (table : ConstantTable) (set : RegisterSet) (register : Nat) : Option TableEntry :=
  table.constants.find? (·.covers set register)

end ConstantTable

/-- The parts of a table that can lie outside it. -/
inductive TablePart where
  | header
  | entry
  | name
  | creator
  | target
  deriving DecidableEq, Repr

namespace TablePart

def description : TablePart → String
  | header => "header"
  | entry => "constant info entry"
  | name => "constant name"
  | creator => "creator"
  | target => "target"

end TablePart

/-- Why a table is refused. -/
inductive TableError where
  /-- A part lies outside the table, which has `size` bytes. -/
  | truncated (part : TablePart) (start stop size : Nat)
  | unterminatedString (offset : Nat)
  | unknownRegisterSet (name : String) (number : Nat)
  deriving DecidableEq, Repr

namespace TableError

def message : TableError → String
  | truncated part start stop size =>
    s!"CTAB truncated: need {part.description} at {start}..{stop}, but the table is {size} bytes"
  | unterminatedString offset => s!"CTAB string at offset {offset} is missing a null terminator"
  | unknownRegisterSet name number =>
    s!"CTAB constant '{name}' has unknown register set {number}"

end TableError

namespace ConstantTable

/-- The length of the header. -/
def headerSize : Nat := 28

/-- The length of a constant's entry. -/
def entrySize : Nat := 20

/-- Asks for a part of a table to lie inside it. -/
def require (bytes : List UInt8) (part : TablePart) (start size : Nat) : Except TableError Unit :=
  if start + size ≤ bytes.length then .ok ()
  else .error (.truncated part start (start + size) bytes.length)

/-- The bytes up to the first zero byte, if there is one. -/
def untilZero? : List UInt8 → Option (List UInt8)
  | [] => none
  | b :: bytes => if b = 0 then some [] else (untilZero? bytes).map (b :: ·)

/-- The string at an offset. -/
def stringAt (bytes : List UInt8) (part : TablePart) (offset : Nat) : Except TableError String :=
  if bytes.length < offset then .error (.truncated part offset offset bytes.length)
  else
    match untilZero? (bytes.drop offset) with
    | some text => .ok (String.ofList (Utf8.decode text))
    | none => .error (.unterminatedString offset)

/-- The string at an offset, where zero means that there is none. -/
def stringAt? (bytes : List UInt8) (part : TablePart) (offset : Nat) :
    Except TableError (Option String) :=
  if offset = 0 then .ok none else some <$> stringAt bytes part offset

/-- The constant whose entry begins at an offset. -/
def entryAt (bytes : List UInt8) (offset : Nat) : Except TableError TableEntry := do
  require bytes .entry offset entrySize
  let name ← stringAt bytes .name (wordAt bytes offset).toNat
  let number := halfWordAt bytes (offset + 4)
  match RegisterSet.ofNumber? number with
  | none => throw (.unknownRegisterSet name number)
  | some registerSet =>
    return { name, registerSet, registerIndex := halfWordAt bytes (offset + 6),
             registerCount := halfWordAt bytes (offset + 8) }

/-- The constants of `count` entries, one behind the other. -/
def entriesFrom (bytes : List UInt8) (offset : Nat) : Nat → Except TableError (List TableEntry)
  | 0 => .ok []
  | count + 1 => do
    let entry ← entryAt bytes offset
    return entry :: (← entriesFrom bytes (offset + entrySize) count)

/-- Reads a table. -/
def parse (bytes : List UInt8) : Except TableError ConstantTable := do
  require bytes .header 0 headerSize
  let count := (wordAt bytes 12).toNat
  let constants ← entriesFrom bytes (wordAt bytes 16).toNat count
  let creator ← stringAt? bytes .creator (wordAt bytes 4).toNat
  let target ← stringAt? bytes .target (wordAt bytes 24).toNat
  return { creator, target, constants }

end ConstantTable
end Bytecode
end ShaderKit
