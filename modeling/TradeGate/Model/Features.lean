import TradeGate.Model.BarMetrics

/-! The features of a timeframe that a scan looks at. -/
namespace TradeGate.Market
open Radar Numbers

/-- `xs.slice(-n)`, of a positive `n`. -/
def lastOf {α : Type} (n : ℕ) (xs : List α) : List α := xs.drop (xs.length-n)

/-- The mean of the last true ranges. -/
def atr (klines : List Bar) (period : ℕ) : Js.Num :=
  let trs := (List.range (klines.length-1)).map fun i => trueRange klines (i+1)
  let tail := lastOf period trs
  if tail=[] then lit 0 else div (tail.foldl add (lit 0)) (lit tail.length)

structure TfFeatures extends toChecklist : Checklist.TfFeatures where
  lastOpenTime : ℚ
  swingHigh50 : Js.Num
  swingLow50 : Js.Num
  distToHigh20Pct : Js.Num
  distToLow20Pct : Js.Num
  changePctLast : Js.Num
  changePct5 : Js.Num
deriving DecidableEq

def highest (ks : List Bar) : Js.Num := (ks.map fun k => ofText k.high).foldl max negInfinity
def lowest (ks : List Bar) : Js.Num := (ks.map fun k => ofText k.low).foldl min infinity

/-- The features of the closed bars, of which `last` is the last. -/
def featuresOf (tf : String) (ks : List Bar) (last : Bar) : TfFeatures :=
  let closes : List Js.Num := ks.map fun k => ofText k.close
  let lastClose : Js.Num := ofText last.close
  let win20 := lastOf 20 ks
  let win50 := lastOf 50 ks
  let prev20 := (ks.take (ks.length-1)).drop (ks.length-21)
  let hi20 := highest win20
  let lo20 := lowest win20
  let vols : List Js.Num := ks.map fun k => ofText k.volume
  let avgVol20 := div (((vols.take (vols.length-1)).drop (vols.length-21)).foldl add (lit 0))
    (lit (Nat.max 1 (Nat.min 20 (vols.length-1))))
  let change (k : Bar) : Js.Num := mul (div (sub lastClose (ofText k.close)) (ofText k.close)) (lit 100)
  { tf := tf
    lastClose := lastClose
    lastOpenTime := last.openTime
    ema20 := (ema closes 20).getLastD nan
    ema50 := (ema closes 50).getLastD nan
    atr14 := atr ks 14
    swingHigh20 := hi20
    swingLow20 := lo20
    swingHigh20Prev := some (if prev20=[] then hi20 else highest prev20)
    swingLow20Prev := some (if prev20=[] then lo20 else lowest prev20)
    swingHigh50 := highest win50
    swingLow50 := lowest win50
    distToHigh20Pct := mul (div (sub hi20 lastClose) lastClose) (lit 100)
    distToLow20Pct := mul (div (sub lastClose lo20) lastClose) (lit 100)
    volRatio20 := if lt (lit 0) avgVol20 then div (ofText last.volume) avgVol20 else lit 1
    -- where there are too few bars, the last or the first of them is compared with
    changePctLast := change (ks.getD (ks.length-2) last)
    changePct5 := change (ks.getD (ks.length-6) last) }

/-- `tfFeatures`: of the closed bars, or of all where only few are closed; no bars have no features. -/
def tfFeatures (now : ℚ) (tf : String) (klines : List Bar) : Option TfFeatures :=
  let closed := klines.filter fun k => k.closeTime ≤ now
  let ks := if 5 ≤ closed.length then closed else klines
  ks.getLast?.map (featuresOf tf ks)

end TradeGate.Market
