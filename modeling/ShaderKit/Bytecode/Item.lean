import ShaderKit.Bytecode.Word

/-!
# The items of a shader

After its version word a shader is a row of items up to the end word.  An item is a word that tells
its length, and that many words more: a comment, or an instruction with its operands.  What follows
the end word is not looked at.

`splitItems` takes the row apart, whatever the items mean, and tells how it ended.  Together with
`wordsOfItems`, which puts items back together, it loses nothing (`wordsOfItems_splitItems`).
-/

set_option autoImplicit false

namespace ShaderKit
namespace Bytecode

/-- The word that ends a shader. -/
def endWord : UInt32 := 0x0000FFFF

/-- The operation code in the low half of a word. -/
def opcode (token : UInt32) : UInt32 := token &&& 0xFFFF

/-- The operation code of a comment. -/
def commentOpcode : UInt32 := 0xFFFE

/-- An item: the word it begins with and the words that belong to it. -/
structure Item where
  token : UInt32
  payload : List UInt32
  deriving DecidableEq, Repr

namespace Item

/-- The number of words of an item. -/
def size (i : Item) : Nat := i.payload.length + 1

end Item

/-- The number of words that a first word asks for after it. -/
def payloadSize (token : UInt32) : Nat :=
  if opcode token = commentOpcode then ((token >>> 16) &&& 0x7FFF).toNat
  else ((token >>> 24) &&& 0x0F).toNat

/-- How a row of items ends. -/
inductive Ending where
  /-- With the end word; the words after it are kept here. -/
  | closed (after : List UInt32)
  /-- After an item, without the end word. -/
  | missingEnd
  /-- Inside an item; its words are kept here. -/
  | cutShort (token : UInt32) (words : List UInt32)
  deriving DecidableEq, Repr

/-- The items at the front of some words, and how they end. -/
def splitItems : List UInt32 → List Item × Ending
  | [] => ([], .missingEnd)
  | token :: words =>
    if token = endWord then ([], .closed words)
    else
      match _h : splitOff? (payloadSize token) words with
      | none => ([], .cutShort token words)
      | some (payload, rest) =>
        let (items, ending) := splitItems rest
        (⟨token, payload⟩ :: items, ending)
termination_by words => words.length
decreasing_by
  have := length_le_of_splitOff? _h
  simp only [List.length_cons] at *
  omega

/-- The words of items. -/
def wordsOfItems (items : List Item) : List UInt32 := items.flatMap fun i => i.token :: i.payload

/-- The words that an ending stands for. -/
def Ending.words : Ending → List UInt32
  | closed after => endWord :: after
  | missingEnd => []
  | cutShort token words => token :: words

/-- Nothing is lost when words are taken apart. -/
theorem wordsOfItems_splitItems (words : List UInt32) :
    wordsOfItems (splitItems words).1 ++ (splitItems words).2.words = words := by
  fun_induction splitItems words with
  | case1 => rfl
  | case2 => simp [wordsOfItems, Ending.words, *]
  | case3 => rfl
  | case4 token words _ payload rest h items ending heq ih =>
    rw [heq] at ih
    simp only [wordsOfItems] at ih ⊢
    simp [List.append_assoc, ih, (splitOff?_eq_some_iff.1 h).1]

end Bytecode
end ShaderKit
