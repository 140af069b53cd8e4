import TradeGate.Js.Braces
import TradeGate.Words.Basic

/-! The object that an agent answers with, found in all that it printed. -/
namespace TradeGate.AgentMcpBackend
open Js

def isObject : Value → Bool
  | .obj _ => true
  | _ => false

/-- `JSON.parse(text.slice(from, to))`, where that is an object. -/
def asObject (text : List Char) (from_ to_ : ℕ) : Option Value :=
  (Json.parse ((text.take to_).drop from_)).filter isObject

/-- The span between outermost braces that was read last. -/
structure Spans where
  depth : ℕ := 0
  openedAt : Option ℕ := none
  best : Option Value := none

def Spans.opened (s : Spans) (i : ℕ) : Spans :=
  { s with depth := s.depth+1, openedAt := if s.depth=0 then some i else s.openedAt }

def Spans.closed (text : List Char) (s : Spans) (i : ℕ) : Spans :=
  if s.depth ≤ 1 then
    { depth := 0
      openedAt := none
      best := (s.openedAt.bind fun from_ => asObject text from_ (i+1)).or s.best }
  else { s with depth := s.depth-1 }

/-- The first pass: the last span that is an object. -/
def bestSpan (text : List Char) : Option Value :=
  (Reader.run Spans.opened (Spans.closed text) 0 text ⟨false,false,{}⟩).state.best

def positions (text : List Char) (c : Char) : List ℕ := (List.range text.length).filter fun i => text[i]? = some c

/-- The second pass, over the last forty braces of each kind. -/
def lastPair (text : List Char) : Option Value :=
  let starts := positions text '\x7b'
  let closes := positions text '\x7d'
  (closes.drop (closes.length-40)).reverse.findSome? fun close =>
    ((starts.drop (starts.length-40)).takeWhile fun open_ => open_ < close).findSome? fun open_ =>
      asObject text open_ (close+1)

def lastJsonObject (text : String) : Option Value := (bestSpan text.toList).or (lastPair text.toList)

end TradeGate.AgentMcpBackend

/-! The JSON object in what a model writes: between the first two fences if there are any, and from the
first brace to the one that closes it. -/
namespace TradeGate.Extract
open Js

def fence : List Char := "```".toList

/-- `(?:json)?\s*` at the start of the text. -/
def untagged (cs : List Char) : List Char :=
  (if (cs.take 4).map Char.toLower="json".toList then cs.drop 4 else cs).dropWhile isSpace

/-- What stands between the first two fences. -/
def fenced (text : List Char) : Option (List Char) :=
  (Words.splitFirst fence text).bind fun p => (Words.splitFirst fence (untagged p.2)).map Prod.fst

def candidate (text : List Char) : List Char := (fenced text).getD text

/-- How many braces are open, and where the scan returned. -/
structure Scan where
  depth : ℕ := 0
  stop : Option ℕ := none

def Scan.opened (s : Scan) (_ : ℕ) : Scan := { s with depth := s.depth+1 }

def Scan.closed (s : Scan) (i : ℕ) : Scan where
  depth := s.depth-1
  stop := if s.depth=1 then s.stop.or (some (i+1)) else s.stop

/-- Where the brace that the text begins with is closed. -/
def closing (cs : List Char) : Option ℕ := (Reader.run Scan.opened Scan.closed 0 cs ⟨false,false,{}⟩).state.stop

/-- `syntaxError` is what `JSON.parse` says of a text that is none. -/
def extractJson (syntaxError : List Char → String) (text : String) : Except String Value :=
  let cs := (candidate text.toList).dropWhile fun c => c ≠ '\x7b'
  if cs=[] then .error "no JSON object in output"
  else match closing cs with
    | none => .error "unterminated JSON object in output"
    | some n => (Json.parse (cs.take n)).elim (.error (syntaxError (cs.take n))) .ok

end TradeGate.Extract
