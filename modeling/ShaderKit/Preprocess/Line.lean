import ShaderKit.Preprocess.CharClass
import ShaderKit.Text.Blank

/-!
# Kinds of lines

A line without its comments is a directive if a number sign is the first thing on it, and text
otherwise.  Directives fall into two kinds which the preprocessor treats quite differently: a
*conditional* one is looked at in every part of a file, since groups nest also where nothing is
kept; an *action* counts only where lines are kept, and elsewhere may be any nonsense.

`Line.classify` decides what a line is from its spelling alone.
-/

set_option autoImplicit false

namespace ShaderKit
namespace Preprocess

/-- The three ways to open a conditional group. -/
inductive Opening where
  /-- `#if`, with an expression. -/
  | condition
  /-- `#ifdef`, with a name. -/
  | defined
  /-- `#ifndef`, with a name. -/
  | undefined
  deriving DecidableEq, Repr

/-- Directives that open, divide and close groups. -/
inductive Conditional where
  | opens (opening : Opening) (arguments : List Char)
  | elif (arguments : List Char)
  | otherwise
  | endif
  deriving DecidableEq, Repr

/-- All other directives. -/
inductive Action where
  /-- A number sign with nothing behind it, or a `#line`: nothing happens. -/
  | nothing
  | define (arguments : List Char)
  | undefine (arguments : List Char)
  | include (arguments : List Char)
  | error (text : List Char)
  /-- A line to be kept as it is, blanks around it aside. -/
  | pragma (line : List Char)
  | unknown (name : List Char)
  deriving DecidableEq, Repr

/-- What a line is. -/
inductive Line where
  | text (line : List Char)
  | conditional (c : Conditional)
  | action (a : Action)
  deriving DecidableEq, Repr

namespace Line

/-- The directive of a name and the text behind it; `line` is the whole line. -/
def ofDirective (name arguments line : List Char) : Line :=
  match String.ofList name with
  | "if" => conditional (.opens .condition arguments)
  | "ifdef" => conditional (.opens .defined arguments)
  | "ifndef" => conditional (.opens .undefined arguments)
  | "elif" => conditional (.elif arguments)
  | "else" => conditional .otherwise
  | "endif" => conditional .endif
  | "" => action .nothing
  | "define" => action (.define arguments)
  | "undef" => action (.undefine arguments)
  | "include" => action (.include arguments)
  | "error" => action (.error arguments)
  | "pragma" => action (.pragma (Text.trim line))
  | "line" => action .nothing
  | _ => action (.unknown name)

/-- What a line without comments is. -/
def classify (line : List Char) : Line :=
  match Text.trimStart line with
  | '#' :: rest =>
    let rest := Text.trimStart rest
    ofDirective (rest.takeWhile isWordChar) (Text.trim (rest.dropWhile isWordChar)) line
  | _ => text line

end Line
end Preprocess
end ShaderKit
