import Mathlib.Data.List.Infix

/-! The regular expressions the program tests its texts with.  A pattern maps a text to every
way of continuing after a match at its start; a text contains a pattern when some suffix
starts with a match. -/
namespace Js

/-- All continuations after a match at the start of the text. -/
abbrev Pattern := List Char → List (List Char)

namespace Pattern

/-- One character of a class. -/
def char (p : Char → Bool) : Pattern
  | [] => []
  | c::cs => if p c then [cs] else []

def eps : Pattern := fun cs => [cs]

def seq (p q : Pattern) : Pattern := fun cs => (p cs).flatMap q

def alt (p q : Pattern) : Pattern := fun cs => p cs ++ q cs

/-- The text itself, read without regard to case when `i` is set. -/
def word (i : Bool) (w : String) : Pattern :=
  w.toList.foldr (fun c p => seq (char fun d => if i then d.toLower=c.toLower else d=c) p) eps

/-- Any number of characters of a class. -/
def many (p : Char → Bool) : Pattern
  | [] => [[]]
  | c::cs => (c::cs)::(if p c then many p cs else [])

/-- `.*`, which stays on its line. -/
def anything : Pattern := many fun c => c ≠ '\n'

def isWord (c : Char) : Bool := c.isAlphanum || c = '_'

/-- `\b` after a word character. -/
def wordEnd : Pattern
  | [] => [[]]
  | c::cs => if isWord c then [] else [c::cs]

/-- `$`. -/
def atEnd : Pattern
  | [] => [[]]
  | _::_ => []

/-- Whether the pattern matches somewhere in the text. -/
def test (p : Pattern) (s : String) : Bool := s.toList.tails.any fun cs => !(p cs).isEmpty

end Pattern

example : (Pattern.seq (.word true "SOCKET") (.seq .anything (.word true "clos"))).test
    "the socket was closed"=true := by decide +kernel

end Js
