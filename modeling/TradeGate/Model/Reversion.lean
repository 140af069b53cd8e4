import Mathlib.Data.List.Sort
import TradeGate.Js.Number
import TradeGate.Model.BarMetrics
import TradeGate.Series.Causal

/-! How often a price that had left its average came back to it within some bars, counted over the past. -/
namespace TradeGate.Reversion
open Series Radar
open Numbers hiding max min

structure ReversionOptions where
  tf : String := ""
  ema_period : ℕ := 20
  atr_period : ℕ := 14
  ks : List ℚ := [3/2,2,5/2]
  horizons : List ℕ := [6,12,24]
  min_bars : ℕ := 400

section
variable {F : Type} [Numbers F]

def emaBody (period : ℕ) (values : List F) (i : ℕ) (prev : F) : F × F :=
  let k := div (lit 2) (lit (period+1))
  let v := values.getD i nan
  let next := if i=0 then v else add (mul v k) (mul prev (sub (lit 1) k))
  (next,next)

def emaSeries (values : List F) (period : ℕ) : List F := loop (lit 0) (emaBody period) values

/-- Wilder's average of the ranges, from the range of the first bar on. -/
def atrBody (period : ℕ) (klines : List Bar) (i : ℕ) (prev : F) : F × F :=
  let high := read Bar.high klines i
  let low := read Bar.low klines i
  let prevClose := if i=0 then read Bar.openPrice klines i else read Bar.close klines (i-1)
  let tr := Numbers.max (Numbers.max (sub high low) (Numbers.abs (sub high prevClose))) (Numbers.abs (sub low prevClose))
  let next := if i=0 then tr else div (add (mul prev (lit (period-1))) tr) (lit period)
  (next,next)

def atrSeries (klines : List Bar) (period : ℕ) : List F := loop (lit 0) (atrBody period) klines

variable (F) in
/-- The bars with their averages. -/
structure Table where
  klines : List Bar
  ema : List F
  atr : List F

variable (F) in
def tableOf (o : ReversionOptions) (klines : List Bar) : Table F where
  klines := klines
  ema := emaSeries (klines.map fun k => ofText k.close) o.ema_period
  atr := atrSeries klines o.atr_period

/-- The bar is that far from the average, in units of the range. -/
def Table.away (t : Table F) (k : ℚ) (i : ℕ) : Bool :=
  let a := t.atr.getD i nan
  lt (lit 0) a && !lt (div (Numbers.abs (sub (read Bar.close t.klines i) (t.ema.getD i nan))) a) (lit k)

/-- The bar touches the average of its time. -/
def Table.touches (t : Table F) (j : ℕ) : Bool :=
  le (read Bar.low t.klines j) (t.ema.getD j nan) && le (t.ema.getD j nan) (read Bar.high t.klines j)

end

/-- The first bars before which as many are taken as the averages need. -/
def warm (o : ReversionOptions) : ℕ := max o.ema_period o.atr_period*2

/-- A bar away from the average, and after how many bars the price was back. -/
structure Sample where
  at_ : ℕ
  reverted : Option ℕ
deriving DecidableEq

section
variable {F : Type} [Numbers F]

def Table.sampleAt (t : Table F) (k : ℚ) (H i : ℕ) : Option Sample :=
  if t.away k i then some ⟨i,((List.range' (i+1) H).find? t.touches).map fun j => j-i⟩ else none

/-- The samples whose window lies within the bars. -/
def Table.samples (t : Table F) (o : ReversionOptions) (k : ℚ) (H : ℕ) : List Sample :=
  (List.range' (warm o) (t.klines.length-H-warm o)).filterMap (t.sampleAt k H)

end

def median (xs : List ℕ) : Option ℚ :=
  let s := xs.insertionSort (· ≤ ·)
  let mid := s.length/2
  if s=[] then none
  else some (if s.length%2=1 then s.getD mid 0 else ((s.getD (mid-1) 0 : ℚ)+s.getD mid 0)/2)

structure ReversionCell where
  k : ℚ
  horizon : ℕ
  samples : ℕ
  prob : Option ℚ
  median_bars : Option ℚ
deriving DecidableEq

def cellOf (k : ℚ) (H : ℕ) (samples : List Sample) : ReversionCell :=
  let barsToRevert := samples.filterMap Sample.reverted
  { k := k
    horizon := H
    samples := samples.length
    prob := if samples=[] then none else some (barsToRevert.length/samples.length)
    median_bars := median barsToRevert }

def ReversionCell.text (c : ReversionCell) : String :=
  let pct := c.prob.elim "n/a" fun v => toString ⌊v*100+1/2⌋ ++ "%"
  "≥" ++ Js.toFixed c.k 1 ++ "ATR/" ++ toString c.horizon ++ "根:回归 " ++ pct ++ "(样本 " ++ toString c.samples ++
    c.median_bars.elim "" (fun m => ",中位 " ++ Js.toFixed m 0 ++ " 根") ++ ")"

structure ReversionStats where
  tf : String
  bars : ℕ
  ema_period : ℕ
  atr_period : ℕ
  ks : List ℚ
  horizons : List ℕ
  cells : List ReversionCell
  text : String

variable (F : Type) [Numbers F]

def cells (o : ReversionOptions) (klines : List Bar) : List ReversionCell :=
  o.ks.flatMap fun k => o.horizons.map fun H => cellOf k H ((tableOf F o klines).samples o k H)

def reversionStats (o : ReversionOptions) (klines : List Bar) : Option ReversionStats :=
  if klines.length<o.min_bars then none
  else
    let cells := cells F o klines
    let ema := toString o.ema_period
    let used := klines.length-warm o-o.horizons.foldl max 0
    some {
      tf := o.tf
      bars := klines.length
      ema_period := o.ema_period
      atr_period := o.atr_period
      ks := o.ks
      horizons := o.horizons
      cells := cells
      text := ";".intercalate ([
        "基于最近 " ++ toString klines.length ++ " 根" ++ (if o.tf="" then "" else " " ++ o.tf) ++ "(有效样本区 " ++
          toString used ++ " 根),偏离 EMA" ++ ema ++ " 达到 k 个 ATR" ++ toString o.atr_period ++
          " 后、H 根内重新触及 EMA" ++ ema ++ " 的历史比例"] ++ cells.map ReversionCell.text ++
        ["样本重叠(同一段偏离会被连续多根重复计数),只作先验;没有盘中 tick,只用高低区间判断触及"]) }

def reversionCell (s : ReversionStats) (k : ℚ) (horizon : ℕ) : Option ReversionCell :=
  s.cells.find? fun c => c.k=k ∧ c.horizon=horizon

end TradeGate.Reversion
