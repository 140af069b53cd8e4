import Mathlib.Algebra.Ring.Nat
import Mathlib.Data.Int.Log
import Mathlib.Data.Int.Notation
import Mathlib.Data.Nat.Notation
import Mathlib.Data.Option.Basic
import Mathlib.Data.Rat.Floor
import Mathlib.Tactic.Common
import TradeGate.Js.Value

/-! Integers and blanks as the standard library of Rust reads them in a text. -/
namespace Rust

/-- The digits that make up a text, if it has any. -/
def decimal (cs : List Char) : Option ℕ :=
  if cs ≠ [] ∧ cs.all Char.isDigit then some (Nat.ofDigitChars 10 cs 0) else none

/-- `str::parse` of an unsigned integer below the limit. -/
def parseUnsigned (limit : ℕ) : List Char → Option ℕ
  | '+'::cs => (decimal cs).filter fun n => n<limit
  | cs => (decimal cs).filter fun n => n<limit

/-- `str::parse::<i64>`. -/
def parseI64 : List Char → Option ℤ
  | '-'::cs => ((decimal cs).filter fun n => n ≤ 2^63).map fun n => -(n : ℤ)
  | cs => (parseUnsigned (2^63) cs).map fun n => (n : ℤ)

/-- `char::is_whitespace`. -/
def isWhitespace (c : Char) : Bool :=
  let n := c.toNat
  (9 ≤ n ∧ n ≤ 13) ∨ n=32 ∨ n=0x85 ∨ n=0xa0 ∨ n=0x1680 ∨ (0x2000 ≤ n ∧ n ≤ 0x200a) ∨ n=0x2028 ∨
    n=0x2029 ∨ n=0x202f ∨ n=0x205f ∨ n=0x3000

def trimStart (cs : List Char) : List Char := cs.dropWhile isWhitespace

def trim (cs : List Char) : List Char := (trimStart (trimStart cs).reverse).reverse

/-- The text behind the first occurrence of a mark. -/
def after (mark : List Char) : List Char → Option (List Char)
  | [] => if mark=[] then some [] else none
  | c::cs => if mark.isPrefixOf (c::cs) then some ((c::cs).drop mark.length) else after mark cs

/-- The text in front of the first occurrence of a mark. -/
def before (mark : List Char) : List Char → List Char
  | [] => []
  | c::cs => if mark.isPrefixOf (c::cs) then [] else c::before mark cs

end Rust

/-! Double-precision numbers: the nearest one of a rational, and the shortest decimal that reads back
as a given one.  The sign of zero is not told apart. -/
namespace Double
open Js

/-- The nearest integer, the even one of two. -/
def halfEven (x : ℚ) : ℤ :=
  let f := ⌊x⌋
  if x-f<1/2 then f else if 1/2<x-f then f+1 else if f%2=0 then f else f+1

/-- The exponent of the last place of the doubles about a number. -/
def place (x : ℚ) : ℤ := max (Int.log 2 |x|-52) (-1074)

/-- The double nearest to a number; infinity from half a place beyond the largest on. -/
def round (x : ℚ) : Js.Num :=
  let y := halfEven (x/(2 : ℚ)^place x)*(2 : ℚ)^place x
  if (2 : ℚ)^1024 ≤ |y| then .inf (x<0) else .fin y

/-- A number that is a double. -/
def Exact (x : Js.Num) : Prop := ∀ q, x=.fin q → round q=.fin q

/-- The decimal of `k` digits nearest to a positive number. -/
def decimal (x : ℚ) (k : ℕ) : ℚ :=
  let unit := (10 : ℚ)^(Int.log 10 x+1-k)
  halfEven (x/unit)*unit

/-- The shortest decimal that reads as the double. -/
def shortest (x : ℚ) : ℚ :=
  let d := ((List.range' 1 17).map (decimal |x|)).find? fun d => round d=.fin |x|
  (if x<0 then -1 else 1)*d.getD |x|

/-- `String(x)` of a double. -/
def text : Js.Num → String
  | .fin x => if x=0 then "0" else numberText (shortest x)
  | x => x.text

example : round 9007199254740993=.fin 9007199254740992 := by decide +kernel

example : text (round 18446744073709551615)="18446744073709552000" := by decide +kernel

example : text (round (1/10))="0.1" := by decide +kernel

end Double
