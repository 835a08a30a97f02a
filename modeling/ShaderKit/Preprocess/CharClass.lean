/-!
# Classes of characters

The letters of the preprocessor's language are ASCII: a word is a letter or an underscore and then
letters, digits and underscores.  Any other character may stand in a line too, and is then a
punctuator, a blank, or part of a literal or a comment.
-/

set_option autoImplicit false

namespace ShaderKit
namespace Preprocess

/-- Whether a character can begin an identifier. -/
def isWordStart (c : Char) : Bool := c.isAlpha || c = '_'

/-- Whether a character can go on in an identifier. -/
def isWordChar (c : Char) : Bool := c.isAlphanum || c = '_'

theorem isWordChar_of_isWordStart {c : Char} (h : isWordStart c = true) : isWordChar c = true := by
  simp only [isWordStart, isWordChar, Char.isAlphanum, Bool.or_eq_true] at *
  exact h.imp_left Or.inl

theorem isWordChar_of_isDigit {c : Char} (h : c.isDigit = true) : isWordChar c = true := by
  simp [isWordChar, Char.isAlphanum, h]

/-- Whether a text is an identifier. -/
def isWord : List Char → Bool
  | [] => false
  | c :: s => isWordStart c && s.all isWordChar

theorem isWordChar_of_mem_word {word : List Char} (h : isWord word = true) :
    ∀ c ∈ word, isWordChar c = true := by
  rcases word with _ | ⟨c, s⟩
  · cases h
  · rw [isWord, Bool.and_eq_true, List.all_eq_true] at h
    exact List.forall_mem_cons.2 ⟨isWordChar_of_isWordStart h.1, h.2⟩

/-- Whether a character opens a literal. -/
def isQuote (c : Char) : Bool := c = '"' || c = '\''

/-- Whether a sign may follow this character inside a number. -/
def isExponentMark (c : Char) : Bool := c = 'e' || c = 'E' || c = 'p' || c = 'P'

end Preprocess
end ShaderKit
