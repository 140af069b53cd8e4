import TradeGate.Keyed.Table
import TradeGate.Number.Numeral

/-! `JSON.parse` and `JSON.stringify`.  Texts are lists of characters here; an escape that stands for half
a character is read as U+FFFD, and an object has its members in the order in which they were first written. -/
namespace Js.Json

/-- The white space of JSON. -/
def isSpace (c : Char) : Bool := c = ' ' || c = '\t' || c = '\n' || c = '\r'

def skip (cs : List Char) : List Char := cs.dropWhile isSpace

/-- The characters after a backslash, but for `u`. -/
def escape (c : Char) : Option ℕ :=
  if c = '"' ∨ c = '\\' ∨ c = '/' then some c.toNat
  else if c = 'b' then some 8
  else if c = 'f' then some 12
  else if c = 'n' then some 10
  else if c = 'r' then some 13
  else if c = 't' then some 9
  else none

/-- The code units of a string up to its closing quote; a character that stands for itself is one. -/
def units : List Char → Option (List ℕ × List Char)
  | [] => none
  | '"'::cs => some ([],cs)
  | '\\' :: 'u'::a::b::c::d::cs =>
    (digitsIn 16 [a,b,c,d]).bind fun n => (units cs).map fun p => (n::p.1,p.2)
  | '\\'::c::cs => (escape c).bind fun n => (units cs).map fun p => (n::p.1,p.2)
  | c::cs => if c = '\\' ∨ c.toNat<32 then none else (units cs).map fun p => (c.toNat::p.1,p.2)

/-- Two halves of a character that follow each other are put together. -/
def chars : List ℕ → List Char
  | [] => []
  | n::m::ns =>
    if 0xD800 ≤ n ∧ n<0xDC00 ∧ 0xDC00 ≤ m ∧ m<0xE000 then
      Char.ofNat (0x10000+(n-0xD800)*0x400+(m-0xDC00))::chars ns
    else (if 0xD800 ≤ n ∧ n<0xE000 then Char.ofNat 0xFFFD else Char.ofNat n)::chars (m::ns)
  | [n] => [if 0xD800 ≤ n ∧ n<0xE000 then Char.ofNat 0xFFFD else Char.ofNat n]

def string (cs : List Char) : Option (String × List Char) :=
  (units cs).map fun p => (String.ofList (chars p.1),p.2)

def numberChar (c : Char) : Bool := c.isDigit || c = '+' || c = '-' || c = '.' || c = 'e' || c = 'E'

/-- What follows a number cannot go on with it, so that all of the characters belong to it. -/
def number (cs : List Char) : Option (Value × List Char) :=
  (numeral (cs.takeWhile numberChar)).map fun q => (.num (Double.round q),cs.dropWhile numberChar)

/-- A name that comes again replaces the value. -/
def assign (members : List (String × Value)) : List (String × Value) :=
  (Keyed.Table.ofRows members : Keyed.Table Prod.fst).rows

mutual

/-- A value at the start of the text, and what follows it. -/
def value : ℕ → List Char → Option (Value × List Char)
  | 0, _ => none
  | n+1, cs =>
    match skip cs with
    | 'n':: 'u':: 'l':: 'l'::rest => some (.null,rest)
    | 't':: 'r':: 'u':: 'e'::rest => some (.bool true,rest)
    | 'f':: 'a':: 'l':: 's':: 'e'::rest => some (.bool false,rest)
    | '"'::rest => (string rest).map fun p => (.str p.1,p.2)
    | '['::rest =>
      match skip rest with
      | ']'::rest => some (.arr [],rest)
      | rest => (items n rest).map fun p => (.arr p.1,p.2)
    | '\x7b'::rest =>
      match skip rest with
      | '\x7d'::rest => some (.obj [],rest)
      | rest => (members n rest).map fun p => (.obj (assign p.1),p.2)
    | rest => number rest

def items : ℕ → List Char → Option (List Value × List Char)
  | 0, _ => none
  | n+1, cs =>
    (value n cs).bind fun p =>
      match skip p.2 with
      | ','::rest => (items n rest).map fun q => (p.1::q.1,q.2)
      | ']'::rest => some ([p.1],rest)
      | _ => none

def members : ℕ → List Char → Option (List (String × Value) × List Char)
  | 0, _ => none
  | n+1, cs =>
    match skip cs with
    | '"'::rest => (string rest).bind fun k =>
      match skip k.2 with
      | ':'::rest => (value n rest).bind fun p =>
        match skip p.2 with
        | ','::rest => (members n rest).map fun q => ((k.1,p.1)::q.1,q.2)
        | '\x7d'::rest => some ([(k.1,p.1)],rest)
        | _ => none
      | _ => none
    | _ => none

end

/-- `JSON.parse`. -/
def parse (cs : List Char) : Option Value :=
  (value (2*cs.length) cs).bind fun p => if skip p.2=[] then some p.1 else none

/-! `JSON.stringify` with the white space of one level. -/

/-- A new line, where there is indentation. -/
def line (gap ind : List Char) : List Char := if gap=[] then [] else '\n'::ind

mutual

def write (gap ind : List Char) : Value → List Char
  | .null => "null".toList
  | .bool b => (if b then "true" else "false").toList
  | .num x => match x with
    | .fin q => (Double.text (.fin q)).toList
    | _ => "null".toList
  | .str s => (jsonString s).toList
  | .arr [] => ['[',']']
  | .arr xs => '[' :: line gap (ind ++ gap) ++ writeItems gap (ind ++ gap) xs ++ line gap ind ++ [']']
  | .obj [] => ['\x7b','\x7d']
  | .obj fields =>
    '\x7b' :: line gap (ind ++ gap) ++ writeMembers gap (ind ++ gap) fields ++ line gap ind ++ ['\x7d']

def writeItems (gap ind : List Char) : List Value → List Char
  | [] => []
  | [x] => write gap ind x
  | x::xs => write gap ind x ++ ',' :: line gap ind ++ writeItems gap ind xs

def writeMembers (gap ind : List Char) : List (String × Value) → List Char
  | [] => []
  | [(k,x)] => (jsonString k).toList ++ (if gap=[] then [':'] else [':',' ']) ++ write gap ind x
  | (k,x)::fields => (jsonString k).toList ++ (if gap=[] then [':'] else [':',' ']) ++ write gap ind x ++
    ',' :: line gap ind ++ writeMembers gap ind fields

end

/-- `JSON.stringify(v, null, gap)`. -/
def stringify (gap : List Char) (v : Value) : List Char := write gap [] v

example : parse "\x7b \"a\" : [1, -2.5e1, \"\\u00e9\\n\"] \x7d".toList =
    some (.obj [("a",.arr [.num (.fin 1),.num (.fin (-25)),.str "é\n"])]) := by decide +kernel

example : stringify [' ',' '] (.obj [("a",.arr [.num (.fin 1),.null])]) =
    "\x7b\n  \"a\": [\n    1,\n    null\n  ]\n\x7d".toList := by decide +kernel

end Js.Json
