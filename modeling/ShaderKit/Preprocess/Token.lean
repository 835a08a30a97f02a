import ShaderKit.Preprocess.CharClass
import ShaderKit.Text.Blank

/-!
# Tokens of a line

`tokenize` cuts a line into tokens and loses nothing: the texts of the tokens, one after the
other, are the line again (`spelling_tokenize`).  The first character of a token decides its kind,
and the kind decides how far it reaches (`extent`): a run of blanks, a run of word characters, a
number with everything that may follow in one — points, letters, and a sign after an exponent mark
— a literal up to its closing quotation mark or the end of the line, or the longest operator the
line goes on with.  Any other character is a token by itself.

A token also carries the names it must not be expanded as any more; `tokenize` hides none.
-/

set_option autoImplicit false

namespace ShaderKit
namespace Preprocess

/-- The kinds of tokens. -/
inductive TokenKind where
  | identifier
  | number
  /-- A string or character literal, quotation marks included. -/
  | literal
  | punctuator
  | space
  deriving DecidableEq, Repr

/-- A piece of a line. -/
structure Token where
  kind : TokenKind
  text : List Char
  /-- The macros this token is not expanded as, because it came out of them. -/
  hidden : List (List Char) := []
  deriving DecidableEq, Repr

namespace Token

def isSpace (t : Token) : Bool := t.kind = .space

/-- Whether a token is the punctuator `p`. -/
def isPunctuator (t : Token) (p : String) : Bool :=
  t.kind = .punctuator && t.text = p.toList

/-- Whether a token is the identifier `name`. -/
def isIdentifier (t : Token) (name : String) : Bool :=
  t.kind = .identifier && t.text = name.toList

end Token

/-! ## How far a token reaches

Each of these counts the characters that belong to a token after its first one. -/

/-- Operators of more than one character, longer ones first. -/
def operators : List (List Char) :=
  ["...", "<<=", ">>=", "||", "&&", "==", "!=", "<=", ">=", "<<", ">>", "++", "--", "->", "+=",
   "-=", "*=", "/=", "%=", "&=", "|=", "^=", "##", "::"].map String.toList

/-- The rest of a number whose last character so far is `last`. -/
def numberTail (last : Char) : List Char → Nat
  | [] => 0
  | c :: s =>
    if isWordChar c || c = '.' || ((c = '+' || c = '-') && isExponentMark last) then
      numberTail c s + 1
    else 0

/-- The rest of a literal, its closing mark included; a backslash takes the next character with
it. -/
def literalTail (quote : Char) : List Char → Nat
  | [] => 0
  | ['\\'] => 1
  | '\\' :: _ :: s => literalTail quote s + 2
  | c :: s => if c = quote then 1 else literalTail quote s + 1

/-- The rest of the longest operator that the line goes on with. -/
def operatorTail (c : Char) (s : List Char) : Nat :=
  match operators.find? (·.isPrefixOf (c :: s)) with
  | some op => op.length - 1
  | none => 0

/-- The kind of the token that begins with `c`, and how many characters of `s` belong to it. -/
def extent (c : Char) (s : List Char) : TokenKind × Nat :=
  if Text.isBlank c then (.space, (s.takeWhile Text.isBlank).length)
  else if isWordStart c then (.identifier, (s.takeWhile isWordChar).length)
  else if c.isDigit || (c = '.' && (s.head?.any Char.isDigit)) then (.number, numberTail c s)
  else if isQuote c then (.literal, literalTail c s)
  else (.punctuator, operatorTail c s)

/-- The tokens of a line. -/
def tokenize : List Char → List Token
  | [] => []
  | c :: s =>
    let (kind, n) := extent c s
    { kind, text := c :: s.take n } :: tokenize (s.drop n)
termination_by s => s.length
decreasing_by simp only [List.length_drop, List.length_cons]; omega

@[simp] theorem tokenize_nil : tokenize [] = [] := by rw [tokenize]

theorem tokenize_cons (c : Char) (s : List Char) :
    tokenize (c :: s) =
      { kind := (extent c s).1, text := c :: s.take (extent c s).2 } ::
        tokenize (s.drop (extent c s).2) := by
  rw [tokenize]

/-- The text that tokens spell. -/
def spelling (ts : List Token) : List Char := ts.flatMap Token.text

@[simp] theorem spelling_nil : spelling [] = [] := rfl

@[simp] theorem spelling_cons (t : Token) (ts : List Token) :
    spelling (t :: ts) = t.text ++ spelling ts := rfl

@[simp] theorem spelling_append (ts us : List Token) :
    spelling (ts ++ us) = spelling ts ++ spelling us := List.flatMap_append

/-- Nothing of a line is lost. -/
theorem spelling_tokenize (line : List Char) : spelling (tokenize line) = line := by
  fun_induction tokenize line with
  | case1 => rfl
  | case2 c s kind n h ih => simp [ih]

/-! ## Blank tokens at the ends -/

/-- The tokens without the blank ones on either side. -/
def trimTokens (ts : List Token) : List Token :=
  ((ts.dropWhile Token.isSpace).reverse.dropWhile Token.isSpace).reverse

theorem trimTokens_sublist (ts : List Token) : (trimTokens ts).Sublist ts := by
  have h :=
    (List.dropWhile_sublist Token.isSpace (l := (ts.dropWhile Token.isSpace).reverse)).reverse
  rw [List.reverse_reverse] at h
  exact h.trans (List.dropWhile_sublist _)

/-- The tokens of a text, without blank ones on either side. -/
def tokenizeTrimmed (text : List Char) : List Token := trimTokens (tokenize text)

end Preprocess
end ShaderKit
