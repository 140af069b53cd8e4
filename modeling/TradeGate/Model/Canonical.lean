import Mathlib.Data.List.Lex
import Mathlib.Data.List.Sort
import TradeGate.Number.Double

/-! Canonical JSON in three runtimes: `canonicalJson` of the gateway, `canonical_json` of execd and
`canonical` of the reference script.  A value is read with the numbers of the runtime, stripped of
null members, sorted by key and printed without blanks. -/
namespace TradeGate.Canonical
open Js

/-- JSON over the numbers of a runtime. -/
inductive Tree (ν : Type)
  | null
  | bool (b : Bool)
  | num (x : ν)
  | str (s : String)
  | arr (xs : List (Tree ν))
  | obj (members : List (String × Tree ν))

namespace Tree

variable {ν μ : Type}

/-! Compact text. -/
mutual

def text (f : ν → String) : Tree ν → String
  | null => "null"
  | bool b => if b then "true" else "false"
  | num x => f x
  | str s => jsonString s
  | arr xs => "[" ++ texts f xs ++ "]"
  | obj members => "\x7b" ++ memberTexts f members ++ "\x7d"

def texts (f : ν → String) : List (Tree ν) → String
  | [] => ""
  | x::xs => text f x ++ (if xs.isEmpty then "" else "," ++ texts f xs)

def memberTexts (f : ν → String) : List (String × Tree ν) → String
  | [] => ""
  | (k,x)::ms => jsonString k ++ ":" ++ text f x ++ (if ms.isEmpty then "" else "," ++ memberTexts f ms)

end

/-! The same tree over other numbers, unless one of them cannot be read. -/
mutual

def mapNumbers (f : ν → Option μ) : Tree ν → Option (Tree μ)
  | null => some null
  | bool b => some (bool b)
  | num x => (f x).map num
  | str s => some (str s)
  | arr xs => (mapNumbersAll f xs).map arr
  | obj members => (mapNumbersMembers f members).map obj

def mapNumbersAll (f : ν → Option μ) : List (Tree ν) → Option (List (Tree μ))
  | [] => some []
  | x::xs => (mapNumbers f x).bind fun y => (mapNumbersAll f xs).map (y::·)

def mapNumbersMembers (f : ν → Option μ) : List (String × Tree ν) → Option (List (String × Tree μ))
  | [] => some []
  | (k,x)::ms => (mapNumbers f x).bind fun y => (mapNumbersMembers f ms).map ((k,y)::·)

end

/-! No object has two members of one name. -/
mutual

def Distinct : Tree ν → Prop
  | arr xs => DistinctAll xs
  | obj members => (members.map Prod.fst).Nodup ∧ DistinctMembers members
  | _ => True

def DistinctAll : List (Tree ν) → Prop
  | [] => True
  | x::xs => Distinct x ∧ DistinctAll xs

def DistinctMembers : List (String × Tree ν) → Prop
  | [] => True
  | (_,x)::ms => Distinct x ∧ DistinctMembers ms

end

/-! The numbers of a tree. -/
mutual

def numbers : Tree ν → List ν
  | num x => [x]
  | arr xs => numbersAll xs
  | obj ms => numbersMembers ms
  | _ => []

def numbersAll : List (Tree ν) → List ν
  | [] => []
  | x::xs => numbers x++numbersAll xs

def numbersMembers : List (String × Tree ν) → List ν
  | [] => []
  | (_,x)::ms => numbers x++numbersMembers ms

end

def isNull : Tree ν → Bool
  | null => true
  | _ => false

end Tree

/-- A number as it is written. -/
structure Numeral where
  negative : Bool := false
  whole : ℕ
  fraction : Option (List (Fin 10)) := none
  exponent : Option ℤ := none
deriving DecidableEq

namespace Numeral

/-- Written with digits only. -/
def Plain (l : Numeral) : Prop := l.fraction=none ∧ l.exponent=none

instance (l : Numeral) : Decidable l.Plain := inferInstanceAs (Decidable (_ ∧ _))

def value (l : Numeral) : ℚ :=
  (if l.negative then -1 else 1)*(l.whole+(l.fraction.getD []).foldr (fun d v => ((d.val : ℚ)+v)/10) 0)*
    (10 : ℚ)^l.exponent.getD 0

/-- The value of a numeral with digits only. -/
def int (l : Numeral) : ℤ := if l.negative then -l.whole else l.whole

/-- The numeral in compact JSON. -/
def text (l : Numeral) : String :=
  (if l.negative then "-" else "") ++ toString l.whole ++
    (match l.fraction with
    | some ds => "." ++ String.ofList (ds.map fun d => Nat.digitChar d.val)
    | none => "") ++
    match l.exponent with
    | some e => "e" ++ toString e
    | none => ""

end Numeral

/-- A JSON value. -/
structure Json where
  tree : Tree Numeral
  distinct : tree.Distinct

/-- The value in compact JSON. -/
def Json.text (v : Json) : String := v.tree.text Numeral.text

/-- A key's code units in UTF-16. -/
def utf16 (s : String) : List ℕ :=
  s.toList.flatMap fun c =>
    let n := c.toNat
    if n<0x10000 then [n] else [0xD800+(n-0x10000)/0x400,0xDC00+(n-0x10000)%0x400]

/-- A key's bytes in UTF-8. -/
def utf8 (s : String) : List ℕ :=
  s.toList.flatMap fun c =>
    let n := c.toNat
    if n<0x80 then [n]
    else if n<0x800 then [0xC0+n/0x40,0x80+n%0x40]
    else if n<0x10000 then [0xE0+n/0x1000,0x80+n/0x40%0x40,0x80+n%0x40]
    else [0xF0+n/0x40000,0x80+n/0x1000%0x40,0x80+n/0x40%0x40,0x80+n%0x40]

/-- A key's code points. -/
def codePoints (s : String) : List ℕ := s.toList.map Char.toNat

/-- Members in the order of what a code makes of their keys. -/
def sortBy {β : Type} (code : String → List ℕ) (members : List (String × β)) : List (String × β) :=
  members.insertionSort fun a b => code a.1 ≤ code b.1

/-! The gateway. -/
namespace Gateway

/-- The keys that an object lists first, by number. -/
def arrayIndex (s : String) : Option ℕ :=
  (digitsIn 10 s.toList).filter fun n => toString n=s ∧ n<2^32-1

/-- The own members of an object, from the order of the assignments to the order of the keys. -/
def ownMembers {β : Type} (members : List (String × β)) : List (String × β) :=
  (members.filter fun m => (arrayIndex m.1).isSome).insertionSort
      (fun a b => (arrayIndex a.1).getD 0 ≤ (arrayIndex b.1).getD 0) ++
    members.filter fun m => (arrayIndex m.1).isNone

/-- Assigning to `__proto__` leaves no member. -/
def assign {β : Type} (members : List (String × β)) : List (String × β) :=
  ownMembers (members.filter fun m => m.1 ≠ "__proto__")

/-- `Number.isInteger(x)`. -/
def isInteger : Js.Num → Bool
  | .fin q => q.den=1
  | _ => false

mutual

def normalize : Tree Js.Num → Option (Tree Js.Num)
  | .null => some .null
  | .arr xs => (normalizeAll xs).map .arr
  | .num x => if isInteger x then some (.num x) else none
  | .obj members => (normalizeMembers members).map fun ms => .obj (assign (sortBy utf16 ms))
  | .str s => some (.str s)
  | .bool b => some (.bool b)

def normalizeAll : List (Tree Js.Num) → Option (List (Tree Js.Num))
  | [] => some []
  | x::xs => (normalize x).bind fun y => (normalizeAll xs).map (y::·)

/-- The members that are not null. -/
def normalizeMembers : List (String × Tree Js.Num) → Option (List (String × Tree Js.Num))
  | [] => some []
  | (k,x)::ms =>
    if x.isNull then normalizeMembers ms
    else (normalize x).bind fun y => (normalizeMembers ms).map ((k,y)::·)

end

def parse (l : Numeral) : Option Js.Num := some (Double.round l.value)

/-- `canonicalJson` of the value that `JSON.parse` reads; none where it throws. -/
def canonicalJson (v : Json) : Option String :=
  ((v.tree.mapNumbers parse).bind normalize).map (Tree.text Double.text)

end Gateway

/-! Execd. -/
namespace Execd

/-- `serde_json::Number`. -/
inductive Number | posInt (n : ℕ) | negInt (i : ℤ) | float (x : ℚ)
deriving DecidableEq

/-- A number is an integer where it fits one of the two types; `-0` is not. -/
def parse (l : Numeral) : Option Number :=
  if l.Plain ∧ ¬l.negative ∧ l.whole<2^64 then some (.posInt l.whole)
  else if l.Plain ∧ l.negative ∧ 0<l.whole ∧ l.whole ≤ 2^63 then some (.negInt (-l.whole))
  else match Double.round l.value with
    | .fin x => some (.float x)
    | _ => none

def Number.text : Number → String
  | posInt n => toString n
  | negInt i => toString i
  | float x => Double.text (.fin x)

mutual

def walk : Tree Number → Option (Tree Number)
  | .obj members => (walkMembers members).map fun ms => .obj (sortBy utf8 ms)
  | .arr xs => (walkAll xs).map .arr
  | .num (.float _) => none
  | .num (.posInt n) => some (.num (.posInt n))
  | .num (.negInt i) => some (.num (.negInt i))
  | .null => some .null
  | .bool b => some (.bool b)
  | .str s => some (.str s)

def walkAll : List (Tree Number) → Option (List (Tree Number))
  | [] => some []
  | x::xs => (walk x).bind fun y => (walkAll xs).map (y::·)

def walkMembers : List (String × Tree Number) → Option (List (String × Tree Number))
  | [] => some []
  | (k,x)::ms =>
    if x.isNull then walkMembers ms
    else (walk x).bind fun y => (walkMembers ms).map ((k,y)::·)

end

/-- The ranges of the two integer types; a number that is not negative has the unsigned one. -/
def Number.Valid : Number → Prop
  | posInt n => n<2^64
  | negInt i => -2^63 ≤ i ∧ i<0
  | float _ => True

/-- `serde_json::Value`. -/
structure Value where
  tree : Tree Number
  distinct : tree.Distinct
  valid : ∀ x ∈ tree.numbers, x.Valid

/-- `canonical_json`; none where it finds a float. -/
def Value.canonicalJson (v : Value) : Option String := (walk v.tree).map (Tree.text Number.text)

/-- `canonical_json` of the value that `serde_json` reads. -/
def canonicalJson (v : Json) : Option String :=
  ((v.tree.mapNumbers parse).bind walk).map (Tree.text Number.text)

end Execd

/-! The reference script. -/
namespace Reference

inductive Number | int (i : ℤ) | float (x : Js.Num)
deriving DecidableEq

/-- The digits an integer may have. -/
def maxStrDigits : ℕ := 4300

def parse (l : Numeral) : Option Number :=
  if l.Plain then
    if (Nat.toDigits 10 l.whole).length ≤ maxStrDigits then some (.int l.int) else none
  else some (.float (Double.round l.value))

def Number.text : Number → String
  | int i => toString i
  | float x => Double.text x

mutual

def stripNulls : Tree Number → Option (Tree Number)
  | .obj members => (stripMembers members).map .obj
  | .arr xs => (stripAll xs).map .arr
  | .num (.float _) => none
  | .num (.int i) => some (.num (.int i))
  | .null => some .null
  | .bool b => some (.bool b)
  | .str s => some (.str s)

def stripAll : List (Tree Number) → Option (List (Tree Number))
  | [] => some []
  | x::xs => (stripNulls x).bind fun y => (stripAll xs).map (y::·)

def stripMembers : List (String × Tree Number) → Option (List (String × Tree Number))
  | [] => some []
  | (k,x)::ms =>
    if x.isNull then stripMembers ms
    else (stripNulls x).bind fun y => (stripMembers ms).map ((k,y)::·)

end

/-! `json.dumps(sort_keys=True)` sorts where it prints. -/
mutual

def sortKeys {ν : Type} : Tree ν → Tree ν
  | .obj members => .obj (sortBy codePoints (sortMembers members))
  | .arr xs => .arr (sortAll xs)
  | .null => .null
  | .bool b => .bool b
  | .num x => .num x
  | .str s => .str s

def sortAll {ν : Type} : List (Tree ν) → List (Tree ν)
  | [] => []
  | x::xs => sortKeys x::sortAll xs

def sortMembers {ν : Type} : List (String × Tree ν) → List (String × Tree ν)
  | [] => []
  | (k,x)::ms => (k,sortKeys x)::sortMembers ms

end

/-- `canonical` of the value that `json.load` reads. -/
def canonical (v : Json) : Option String :=
  ((v.tree.mapNumbers parse).bind stripNulls).map fun t => (sortKeys t).text Number.text

end Reference

end TradeGate.Canonical
