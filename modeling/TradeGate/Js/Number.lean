import Mathlib.Algebra.Order.Ring.Rat
import Mathlib.Algebra.Order.Floor.Defs
import Mathlib.Data.Nat.Digits.Defs
import Mathlib.Data.Rat.Floor

/-! Decimal strings read as numbers.  Prices and quantities travel as strings; `number` is the
conversion `Number(s)` on decimal notation, over the rationals, with `none` for not-a-number. -/
namespace Js

/-- The value of a digit. -/
def digit? (c : Char) : Option ℕ := if c.isDigit then some (c.toNat - '0'.toNat) else none

/-- The longest run of digits: its value, its length and what follows it. -/
def digits : List Char → ℕ → ℕ → ℕ × ℕ × List Char
  | [], v, n => (v,n,[])
  | c::cs, v, n => match digit? c with
    | some d => digits cs (10*v+d) (n+1)
    | none => (v,n,c::cs)

/-- A sign and what follows it. -/
def sign : List Char → ℤ × List Char
  | '-'::cs => (-1,cs)
  | '+'::cs => (1,cs)
  | cs => (1,cs)

/-- The exponent part, which must end the text. -/
def exponent : List Char → Option ℤ
  | [] => some 0
  | c::cs =>
    if c = 'e' ∨ c = 'E' then
      match digits (sign cs).2 0 0 with
      | (_,0,_) => none
      | (v,_,[]) => some ((sign cs).1*v)
      | _ => none
    else none

/-- An optional fraction: its digits as a number, and how many there are. -/
def fraction : List Char → ℕ × ℕ × List Char
  | '.'::cs => digits cs 0 0
  | cs => (0,0,cs)

def isBlank (c : Char) : Bool := c.isWhitespace

/-- The text without blanks at its ends. -/
def trim (cs : List Char) : List Char :=
  ((cs.dropWhile isBlank).reverse.dropWhile isBlank).reverse

/-- `Number(s)`; the empty text is zero. -/
def number (s : String) : Option ℚ :=
  match trim s.toList with
  | [] => some 0
  | cs =>
    match digits (sign cs).2 0 0 with
    | (i,n,rest) =>
      match fraction rest with
      | (f,m,rest) =>
        if n+m=0 then none
        else (exponent rest).map fun e => ((sign cs).1 : ℚ)*(i+f/10^m)*(10 : ℚ)^e

/-- `Number(s)`, where not-a-number compares as neither larger nor smaller than anything. -/
def positive (s : String) : Prop := ∃ v, number s=some v ∧ 0<v

instance (s : String) : Decidable (positive s) :=
  match h : number s with
  | some v => decidable_of_iff (0<v) (by simp [positive,h])
  | none => .isFalse (by simp [positive,h])

/-- `x.toFixed(d)`: rounded to `d` decimals, halves away from zero. -/
def toFixed (x : ℚ) (d : ℕ) : String :=
  let n := ⌊abs x*10^d+1/2⌋.toNat
  let frac := toString (n % 10^d)
  (if x<0 then "-" else "") ++ toString (n/10^d) ++
    (if d=0 then "" else "." ++ String.ofList (List.replicate (d-frac.length) '0') ++ frac)

/-- `Number(s)` with not-a-number read as zero, for texts that were checked to be numbers. -/
def value (s : String) : ℚ := (number s).getD 0

theorem number_of_positive {s : String} (h : positive s) : number s=some (value s) := by
  obtain ⟨v,hv,-⟩ := h
  rw [value,hv]
  rfl

theorem value_pos {s : String} (h : positive s) : 0<value s := by
  obtain ⟨v,hv,hp⟩ := h
  rw [value,hv]
  exact hp

/-- Decimals of a step such as `0.0010`, without its trailing zeros. -/
def decimals (step : String) : ℕ :=
  (((step.toList.dropWhile fun c => c ≠ '.').drop 1).reverse.dropWhile fun c => c = '0').length

/-- The shortest decimal notation of a number with at most twenty decimals. -/
def text (x : ℚ) : String :=
  toFixed x (((List.range 20).find? fun d => (x*10^d).den=1).getD 20)

def digit36 (n : ℕ) : Char := Char.ofNat (if n<10 then 48+n else 87+n)

/-- `now.toString(36).slice(-6)`. -/
def shortStamp (now : ℕ) : String :=
  String.ofList (((Nat.digits 36 now).map digit36).take 6).reverse

example : number "0.5"=some (1/2) := by decide +kernel

example : number "1e-7"=some (1/10000000) := by decide +kernel

example : number "1.2.3"=none := by decide +kernel

example : toFixed (-7/2) 3="-3.500" := by decide +kernel

example : decimals "0.0010"=3 := by decide +kernel

end Js
