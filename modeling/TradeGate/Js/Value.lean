import Mathlib.Data.Nat.Notation
import TradeGate.Js.Number

/-! `JSON.stringify` of flat objects whose values are texts or null. -/
namespace Js

/-- A character inside a JSON string: quotes, backslashes and control characters are escaped. -/
def jsonChar (c : Char) : String :=
  if c = '"' then "\\\""
  else if c = '\\' then "\\\\"
  else if c = '\n' then "\\n"
  else if c = '\r' then "\\r"
  else if c = '\t' then "\\t"
  else if c=Char.ofNat 8 then "\\b"
  else if c=Char.ofNat 12 then "\\f"
  else if c.toNat<32 then
    "\\u00" ++ String.ofList [Nat.digitChar (c.toNat/16),Nat.digitChar (c.toNat%16)]
  else c.toString

def jsonString (s : String) : String := "\"" ++ String.join (s.toList.map jsonChar) ++ "\""

theorem jsonString_toList (s : String) :
    (jsonString s).toList = '"'::(s.toList.flatMap fun c => (jsonChar c).toList) ++ ['"'] := by
  simp [jsonString,String.toList_append,String.toList_join,List.flatMap_map]

def jsonValue (v : Option String) : String := v.elim "null" jsonString

/-- An object with its keys in the given order. -/
def jsonObject (fields : List (String × Option String)) : String :=
  "\x7b" ++ ",".intercalate (fields.map fun f => jsonString f.1 ++ ":" ++ jsonValue f.2) ++ "\x7d"

example : jsonObject [("id",some "a\"b"),("price",none)]="\x7b\"id\":\"a\\\"b\",\"price\":null\x7d" := by
  decide +kernel

end Js

/-! The values that `JSON.parse` gives, and what JavaScript makes of them: their texts, their numbers,
and their notation. -/
namespace Js

/-- A number, over the rationals; the sign of zero is not told apart. -/
inductive Num | nan | inf (negative : Bool) | fin (q : ℚ)
deriving DecidableEq

inductive Value
  | null
  | bool (b : Bool)
  | num (x : Num)
  | str (s : String)
  | arr (xs : List Value)
  | obj (fields : List (String × Value))

/-- The value of a key, if the object has it. -/
def field (fields : List (String × Value)) (key : String) : Option Value := fields.lookup key

/-! Texts. -/

/-- White space and line ends, as `trim` sees them. -/
def isSpace (c : Char) : Bool :=
  c.toNat ∈ [9,10,11,12,13,32,0xA0,0x1680,0x2028,0x2029,0x202F,0x205F,0x3000,0xFEFF] ∨
    0x2000 ≤ c.toNat ∧ c.toNat ≤ 0x200A

def strip (cs : List Char) : List Char :=
  ((cs.dropWhile isSpace).reverse.dropWhile isSpace).reverse

/-- `s.trim()`. -/
def trimmed (s : String) : String := String.ofList (strip s.toList)

/-- Capital letters of a character, as far as they are Latin letters without accents. -/
def upperChar (c : Char) : List Char :=
  match c.toNat with
  | 0xDF => ['S','S']
  | 0x131 => ['I']
  | 0x17F => ['S']
  | 0xFB00 => ['F','F']
  | 0xFB01 => ['F','I']
  | 0xFB02 => ['F','L']
  | 0xFB03 => ['F','F','I']
  | 0xFB04 => ['F','F','L']
  | 0xFB05 => ['S','T']
  | 0xFB06 => ['S','T']
  | _ => [c.toUpper]

/-- `s.toUpperCase()`. -/
def upperCase (s : String) : String := String.ofList (s.toList.flatMap upperChar)

/-- Length in the units that `length` and `slice` count. -/
def width (c : Char) : ℕ := if c.toNat<0x10000 then 1 else 2

def sliceChars : ℕ → List Char → List Char
  | _, [] => []
  | n, c::cs => if width c ≤ n then c::sliceChars (n-width c) cs else []

/-- `s.slice(0, n)`. -/
def slice (n : ℕ) (s : String) : String := String.ofList (sliceChars n s.toList)

def lengthOf (s : String) : ℕ := (s.toList.map width).sum

/-! Numbers. -/

/-- Digits in base `b`, all of them. -/
def digitsIn (b : ℕ) (cs : List Char) : Option ℕ :=
  if cs=[] then none
  else cs.foldl (fun n c =>
    let d := if c.isDigit then c.toNat-48 else if c.isLower then c.toNat-87
      else if c.isUpper then c.toNat-55 else b
    n.bind fun n => if d<b then some (n*b+d) else none) (some 0)

/-- `0x1f`, `0o17`, `0b11`. -/
def radixed : List Char → Option ℕ
  | '0'::x::cs =>
    if x = 'x' ∨ x = 'X' then digitsIn 16 cs
    else if x = 'o' ∨ x = 'O' then digitsIn 8 cs
    else if x = 'b' ∨ x = 'B' then digitsIn 2 cs
    else none
  | _ => none

/-- `Number(s)` of any text. -/
def Num.ofText (s : String) : Num :=
  let cs := strip s.toList
  match radixed cs with
  | some n => .fin n
  | none =>
    if cs="Infinity".toList ∨ cs="+Infinity".toList then .inf false
    else if cs="-Infinity".toList then .inf true
    else (number (String.ofList cs)).elim .nan .fin

/-- How many decimals a number needs. -/
def decimalsOf (x : ℚ) : ℕ := ((List.range (Nat.log2 x.den+2)).find? fun d => x.den ∣ 10^d).getD 0

def zeros (n : ℕ) : String := String.ofList (List.replicate n '0')

/-- `String(x)` of a number with finitely many decimals. -/
def numberText (x : ℚ) : String :=
  if x=0 then "0"
  else
    let d := decimalsOf x
    let m := (⌊abs x*10^d⌋.toNat)
    let ds := (((toString m).toList.reverse.dropWhile fun c => c = '0').reverse)
    let k := ds.length
    -- the number is `0.ds` shifted by `n` places
    let n : ℤ := (toString m).length-d
    let body :=
      if k ≤ n ∧ n ≤ 21 then String.ofList ds ++ zeros (n-k).toNat
      else if 0<n ∧ n ≤ 21 then
        String.ofList (ds.take n.toNat) ++ "." ++ String.ofList (ds.drop n.toNat)
      else if -6<n ∧ n ≤ 0 then "0." ++ zeros (-n).toNat ++ String.ofList ds
      else String.ofList (ds.take 1) ++ (if k=1 then "" else "." ++ String.ofList (ds.drop 1)) ++
        "e" ++ (if 0<n then "+" else "-") ++ toString (n-1).natAbs
    (if x<0 then "-" else "") ++ body

def Num.text : Num → String
  | .nan => "NaN"
  | .inf negative => if negative then "-Infinity" else "Infinity"
  | .fin q => numberText q

namespace Value

/-! `String(v)`.  An object that brings its own `toString` has no text: the conversion throws. -/
mutual

def text? : Value → Option String
  | null => some "null"
  | bool b => some (if b then "true" else "false")
  | num x => some x.text
  | str s => some s
  | arr xs => (texts? xs).map (",".intercalate ·)
  | obj fields => if (fields.map Prod.fst).elem "toString" then none else some "[object Object]"

/-- The texts of the elements of an array, where null is blank. -/
def texts? : List Value → Option (List String)
  | [] => some []
  | x::xs => (match x with
    | null => some ""
    | x => text? x).bind fun s => (texts? xs).map (s::·)

end

/-- `Number(v)`. -/
def number? : Value → Option Num
  | null => some (.fin 0)
  | bool b => some (.fin (if b then 1 else 0))
  | num x => some x
  | str s => some (.ofText s)
  | v => (text? v).map .ofText

/-! `JSON.stringify(v)`. -/
mutual

def jsonText : Value → String
  | null => "null"
  | bool b => if b then "true" else "false"
  | num (.fin q) => numberText q
  | num _ => "null"
  | str s => jsonString s
  | arr xs => "[" ++ ",".intercalate (jsonTexts xs) ++ "]"
  | obj fields => "\x7b" ++ ",".intercalate (members fields) ++ "\x7d"

def jsonTexts : List Value → List String
  | [] => []
  | x::xs => jsonText x::jsonTexts xs

def members : List (String × Value) → List String
  | [] => []
  | (k,x)::fs => (jsonString k ++ ":" ++ jsonText x)::members fs

end

/-! Equality is decided along the structure. -/
mutual

def same : Value → Value → Bool
  | null, null => true
  | bool a, bool b => a=b
  | num x, num y => x=y
  | str s, str t => s=t
  | arr xs, arr ys => sameList xs ys
  | obj fs, obj gs => sameFields fs gs
  | _, _ => false

def sameList : List Value → List Value → Bool
  | [], [] => true
  | x::xs, y::ys => same x y && sameList xs ys
  | _, _ => false

def sameFields : List (String × Value) → List (String × Value) → Bool
  | [], [] => true
  | (k,x)::fs, (l,y)::gs => k=l && same x y && sameFields fs gs
  | _, _ => false

end

mutual

theorem same_iff : ∀ {v w : Value}, same v w=true ↔ v=w
  | null, w => by cases w <;> simp [same]
  | bool _, w => by cases w <;> simp [same]
  | num _, w => by cases w <;> simp [same]
  | str _, w => by cases w <;> simp [same]
  | arr xs, w => by
    cases w with
    | arr ys => simp [same,sameList_iff xs]
    | _ => simp [same]
  | obj fs, w => by
    cases w with
    | obj gs => simp [same,sameFields_iff fs]
    | _ => simp [same]

theorem sameList_iff : ∀ (xs : List Value) {ys : List Value}, sameList xs ys=true ↔ xs=ys
  | [], ys => by cases ys <;> simp [sameList]
  | x::xs, ys => by
    cases ys with
    | nil => simp [sameList]
    | cons y ys => simp [sameList,same_iff (v := x),sameList_iff xs]

theorem sameFields_iff : ∀ (fs : List (String × Value)) {gs : List (String × Value)}, sameFields fs gs=true ↔ fs=gs
  | [], gs => by cases gs <;> simp [sameFields]
  | (k,x)::fs, gs => by
    cases gs with
    | nil => simp [sameFields]
    | cons g gs => simp [sameFields,same_iff (v := x),sameFields_iff fs,Prod.ext_iff]

end

instance : DecidableEq Value := fun _ _ => decidable_of_iff _ same_iff

end Value
end Js
