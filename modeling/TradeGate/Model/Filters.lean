import Mathlib.Algebra.Order.Floor.Ring
import Mathlib.Data.Rat.Floor
import TradeGate.Number.Double

/-! Numbers in the exchange's messages, and a parent order in lots, divided into tiers by
percentages. -/
namespace TradeGate.ExecCore
open Js

/-! Numbers of the exchange come as texts or as numbers. -/

/-- `Number::as_f64`. -/
def asF64 : Js.Num → Js.Num
  | .fin q => Double.round q
  | x => x

/-- `text.trim().parse::<f64>()`. -/
def parseF64 (text : String) : Option Js.Num :=
  let cs := Rust.trim text.toList
  let word := (sign cs).2.map Char.toLower
  if word="nan".toList then some .nan
  else if word="inf".toList ∨ word="infinity".toList then some (.inf ((sign cs).1<0))
  else if cs=[] then none
  else (number (String.ofList cs)).map Double.round

def f64Of : Value → Option Js.Num
  | .num x => some (asF64 x)
  | .str text => parseF64 text
  | _ => none

/-- `format!("{value:.12}")`. -/
def twelveDecimals (x : ℚ) : String :=
  (if x<0 then "-" else "") ++ toFixed (Double.halfEven (|x| * 10^12)/10^12) 12

def trimEnd (c : Char) (cs : List Char) : List Char := (cs.reverse.dropWhile fun d => d=c).reverse

/-- The shortest notation of a double, or twelve decimals where that has more. -/
def decimalText : Js.Num → String
  | .nan => "NaN"
  | .inf negative => if negative then "-inf" else "inf"
  | .fin x =>
    if x=0 then "0"
    else if decimalsOf (Double.shortest x) ≤ 12 then
      toFixed (Double.shortest x) (decimalsOf (Double.shortest x))
    else
      let trimmed := trimEnd '.' (trimEnd '0' (twelveDecimals x).toList)
      if trimmed=[] then "0" else String.ofList trimmed

example : decimalText (Double.round (449379/10))="44937.9" := by decide +kernel

example : decimalText (Double.round (1/10^13))="0" := by decide +kernel

/-! Lots. -/

/-- The largest `u64`. -/
def maxU64 : ℕ := 2^64-1

/-- `as u64` of a number that was rounded down. -/
def floorU64 (x : ℚ) : ℕ := min ⌊x⌋.toNat maxU64

def saturatingAdd (a b : ℕ) : ℕ := min (a+b) maxU64

/-- The sum of the percentages that count. -/
def totalPercent (percents : List ℚ) : ℚ := (percents.filter fun value => 0<value).sum

/-- What makes up for the rounding of a share that is whole. -/
def lotTolerance : ℚ := 1/10^10

/-- The loop of `allocate_lots`: the last tier takes what is left. -/
def allocateFrom (parentLots : ℕ) (total : ℚ) : ℕ → List ℚ → List ℕ
  | _, [] => []
  | allocated, [_] => [parentLots-allocated]
  | allocated, percent::next::percents =>
    let lots := floorU64 (parentLots*max percent 0/total+lotTolerance)
    lots::allocateFrom parentLots total (saturatingAdd allocated lots) (next::percents)

/-- `allocate_lots`. -/
def allocateLots (parentLots : UInt64) (percents : List ℚ) : List ℕ :=
  if percents=[] then []
  else if totalPercent percents ≤ 0 then List.replicate percents.length 0
  else allocateFrom parentLots.toNat (totalPercent percents) 0 percents

end TradeGate.ExecCore
