import TradeGate.Model.Checklist
import TradeGate.Series.Causal

/-! The measurements of each bar that the screener and the replay judge by.  Numbers are whatever the
host computes with: nothing is assumed of their arithmetic. -/
namespace TradeGate.Radar
open Series

/-- The operations on numbers. -/
class Numbers (F : Type) where
  /-- `Number(text)`. -/
  ofText : String → F
  lit : ℚ → F
  nan : F
  infinity : F
  negInfinity : F
  add : F → F → F
  sub : F → F → F
  mul : F → F → F
  div : F → F → F
  max : F → F → F
  min : F → F → F
  abs : F → F
  lt : F → F → Bool
  le : F → F → Bool
  isFinite : F → Bool

instance : Numbers Js.Num where
  ofText := Js.Num.ofText
  lit := .fin
  nan := .nan
  infinity := .inf false
  negInfinity := .inf true
  add := Js.Num.add
  sub := Js.Num.sub
  mul := Js.Num.mul
  div := Js.Num.div
  max := Js.Num.max
  min := Js.Num.min
  abs := Js.Num.abs
  lt a b := a.lt b
  le a b := a.le b
  isFinite := Js.Num.isFinite

/-- A bar with the strings of the exchange, and its times in milliseconds. -/
structure Bar where
  openTime : ℚ := 0
  openPrice : String := ""
  high : String := ""
  low : String := ""
  close : String := ""
  volume : String := ""
  closeTime : ℚ := 0
deriving DecidableEq, Inhabited

structure FundingPoint where
  at_ : ℚ
  rate : String
deriving DecidableEq, Inhabited

structure SeriesBundle where
  base : List Bar
  h1 : List Bar
  h4 : List Bar
  d1 : List Bar
  funding : List FundingPoint
deriving DecidableEq

/-- The last bar that is closed at the time. -/
def lastClosedIndex (bars : List Bar) (t : ℚ) : Option ℕ := lastIndex (fun bar => bar.closeTime ≤ t) bars

def lastFundingIndex (funding : List FundingPoint) (t : ℚ) : Option ℕ :=
  lastIndex (fun point => point.at_ ≤ t) funding

section
variable {F : Type} [Numbers F]
open Numbers

/-- The reading of a series at a position; there is one wherever the source reads. -/
def read (field : Bar → String) (bars : List Bar) (i : ℕ) : F := ofText (field (bars.getD i {}))

def emaFrom (k : F) : F → List F → List F
  | _, [] => []
  | prev, v::values =>
    let next := add (mul v k) (mul prev (sub (lit 1) k))
    next::emaFrom k next values

def ema (values : List F) (period : ℕ) : List F :=
  match values with
  | [] => []
  | v::values => v::emaFrom (div (lit 2) (lit (period+1))) v values

def trueRange (bars : List Bar) (i : ℕ) : F :=
  if i=0 then lit 0
  else
    let h := read Bar.high bars i
    let l := read Bar.low bars i
    let pc := read Bar.close bars (i-1)
    max (max (sub h l) (abs (sub h pc))) (abs (sub l pc))

/-- The sum that slides along the true ranges. -/
def rangeSum (period : ℕ) : List Bar → ℕ → F :=
  accumulate (lit 0) fun bars i sum =>
    let sum := add sum (trueRange bars i)
    if period < i then sub sum (trueRange bars (i-period)) else sum

def rollingAtr (bars : List Bar) (period i : ℕ) : F :=
  if i=0 ∨ i<period then lit 0 else div (rangeSum period bars i) (lit period)

/-- The extreme of the last `n` bars, with or without the one at the position. -/
def rollingExtreme (bars : List Bar) (n : ℕ) (high inclusive : Bool) (i : ℕ) : F :=
  let stop := if inclusive then i+1 else i
  let window := (bars.take stop).drop (stop-n)
  if window=[] then nan
  else if high then (window.map fun bar => ofText bar.high).foldl max negInfinity
  else (window.map fun bar => ofText bar.low).foldl min infinity

/-- The volume in terms of the average of the bars before. -/
def rollingVolRatio (bars : List Bar) (n i : ℕ) : F :=
  let window := (bars.take i).drop (i-n)
  let sum := (window.map fun bar => ofText bar.volume).foldl add (lit 0)
  let avg := div sum (lit (Nat.max 1 window.length))
  if i=0 then lit 1 else if lt (lit 0) avg then div (read Bar.volume bars i) avg else lit 1

def windowedEma (bars : List Bar) (window period i : ℕ) : F :=
  (ema (((bars.take (i+1)).drop (i+1-window)).map fun bar => ofText bar.close) period).getLastD nan

/-- The side of the averages of twenty and fifty closes, computed anew in each window. -/
def windowedEmaDir (F : Type) [Numbers F] (bars : List Bar) (window i : ℕ) : Option Direction :=
  let a : F := windowedEma bars window 20 i
  let b := windowedEma bars window 50 i
  if lt b a then some .long else if lt a b then some .short else none

def brokeUp (F : Type) [Numbers F] (bars : List Bar) (i : ℕ) : Bool :=
  let level : F := rollingExtreme bars 20 true false i
  isFinite level && lt level (read Bar.close bars i)

def brokeDown (F : Type) [Numbers F] (bars : List Bar) (i : ℕ) : Bool :=
  let level : F := rollingExtreme bars 20 false false i
  isFinite level && lt (read Bar.close bars i) level

/-- The measurements of a bar; `R` are the labels of the daily regime. -/
structure BarMetrics (F R : Type) where
  t : ℚ
  close : F
  atr : F
  atrPct : F
  atrFloor : F
  hi20 : F
  lo20 : F
  hi20Prev : F
  lo20Prev : F
  volRatio : F
  ema20 : F
  dirH1 : Option Direction
  dirH4 : Option Direction
  h4DistAtr : Option F
  regime : Option R
  fundingAbsPct : Option F
  brokeUp : Bool
  brokeDown : Bool
  barsSinceUp : ℤ
  barsSinceDown : ℤ
  breakVolUp : Option F
  breakVolDown : Option F
deriving DecidableEq

/-- The loop of `computeMetrics` between two bars; each row stands with the position of its bar. -/
structure Loop (F R : Type) where
  regimeCache : List (ℕ × Option R) := []
  lastUp : Option ℕ := none
  lastDown : Option ℕ := none
  rows : List (BarMetrics F R × ℕ) := []

variable {R : Type} (dailyRegime : List Bar → ℚ → Option R) (s : SeriesBundle) (tf : String)

/-- The regime of the last 260 closed days, remembered by the last of them. -/
def regimeAt (cache : List (ℕ × Option R)) (t : ℚ) : Option R × List (ℕ × Option R) :=
  match lastClosedIndex s.d1 t with
  | none => (none,cache)
  | some iD =>
    match cache.lookup iD with
    | some regime => (regime,cache)
    | none =>
      let daily := (s.d1.take (iD+1)).drop (iD-259)
      let regime := if 30 ≤ daily.length then dailyRegime daily t else none
      (regime,(iD,regime)::cache)

/-- The distance of the close of 4h from its average. -/
def h4Dist (h4 : List Bar) (i : ℕ) : Option F :=
  let atr : F := rollingAtr h4 14 i
  if lt (lit 0) atr then some (div (abs (sub (read Bar.close h4 i) (windowedEma h4 80 20 i))) atr) else none

def rowAt (i : ℕ) (lastUp lastDown : Option ℕ) (regime : Option R) : BarMetrics F R :=
  let t := (s.base.getD i {}).closeTime
  let close : F := read Bar.close s.base i
  let atr := rollingAtr s.base 14 i
  { t := t
    close := close
    atr := atr
    atrPct := mul (div atr close) (lit 100)
    atrFloor := lit (Checklist.atrPctFloor tf)
    hi20 := rollingExtreme s.base 20 true true i
    lo20 := rollingExtreme s.base 20 false true i
    hi20Prev := rollingExtreme s.base 20 true false i
    lo20Prev := rollingExtreme s.base 20 false false i
    volRatio := rollingVolRatio s.base 20 i
    ema20 := windowedEma s.base 60 20 i
    dirH1 := (lastClosedIndex s.h1 t).bind (windowedEmaDir F s.h1 120)
    dirH4 := (lastClosedIndex s.h4 t).bind (windowedEmaDir F s.h4 80)
    h4DistAtr := (lastClosedIndex s.h4 t).bind (h4Dist s.h4)
    regime := regime
    fundingAbsPct := (lastFundingIndex s.funding t).map fun k =>
      mul (abs (ofText (s.funding.getD k default).rate)) (lit 100)
    brokeUp := brokeUp F s.base i
    brokeDown := brokeDown F s.base i
    barsSinceUp := lastUp.elim (-1) fun k => i-k
    barsSinceDown := lastDown.elim (-1) fun k => i-k
    breakVolUp := lastUp.map (rollingVolRatio s.base 20)
    breakVolDown := lastDown.map (rollingVolRatio s.base 20) }

/-- The bar is in the range, has twenty bars before it, and can be measured. -/
def measured (F : Type) [Numbers F] (from_ to_ : ℚ) (i : ℕ) : Bool :=
  let t := (s.base.getD i {}).closeTime
  let level : F := rollingExtreme s.base 20 true false i
  let atr : F := rollingAtr s.base 14 i
  let close : F := read Bar.close s.base i
  !(decide (t<from_) || decide (to_<t)) && !(decide (i<20) || !isFinite level) &&
    !(!lt (lit 0) atr || !lt (lit 0) close)

def step (from_ to_ : ℚ) (l : Loop F R) (i : ℕ) : Loop F R :=
  let lastUp := if brokeUp F s.base i then some i else l.lastUp
  let lastDown := if brokeDown F s.base i then some i else l.lastDown
  if measured s F from_ to_ i then
    let (regime,cache) := regimeAt dailyRegime s l.regimeCache (s.base.getD i {}).closeTime
    { regimeCache := cache
      lastUp := lastUp
      lastDown := lastDown
      rows := l.rows++[(rowAt s tf i lastUp lastDown regime,i)] }
  else { l with lastUp := lastUp, lastDown := lastDown }

/-- `computeMetrics`: the rows, each with the position of its bar. -/
def computeMetrics (from_ to_ : ℚ) : List (BarMetrics F R × ℕ) :=
  ((List.range s.base.length).foldl (step dailyRegime s tf from_ to_) {}).rows

end
end TradeGate.Radar
