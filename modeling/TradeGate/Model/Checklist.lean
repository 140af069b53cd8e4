import Mathlib.Data.Nat.Sqrt
import TradeGate.Model.Heartbeat
import TradeGate.Model.Outcome

/-! The checklist of a scan: what is computed of the features before a model is asked. -/
namespace TradeGate.Checklist
open Js

/-- The length of a timeframe in milliseconds, by the pattern `^(\d+)([mhd])$`. -/
def tfToMs (tf : String) : Option ℕ :=
  let ds := tf.toList.takeWhile Char.isDigit
  if ds=[] then none
  else
    match tf.toList.dropWhile Char.isDigit with
    | ['m'] => some (Nat.ofDigitChars 10 ds 0*60000)
    | ['h'] => some (Nat.ofDigitChars 10 ds 0*3600000)
    | ['d'] => some (Nat.ofDigitChars 10 ds 0*86400000)
    | _ => none

/-- `ATR_PCT_FLOOR`. -/
def atrPctFloors : List (String × ℚ) :=
  [("1m",0.04),("5m",0.08),("15m",0.15),("30m",0.2),("1h",0.3),("4h",0.6),("1d",1.5)]

/-- The floor that is listed, or `Math.round(0.08 * Math.sqrt(minutes / 5) * 100) / 100`. -/
def atrPctFloor (tf : String) : ℚ :=
  (atrPctFloors.lookup tf).getD <| (tfToMs tf).elim 0.3 fun ms =>
    -- `n - 1/2 ≤ 8 * √(minutes / 5)` says that `2 * n - 1` is no more than `√(256 * minutes / 5)`
    let minutes := ms/60000
    (((256*minutes/5).sqrt+1)/2 : ℕ)/100

example : atrPctFloor "3m"=0.06 := by decide +kernel

/-- What the checklist uses of the features of a timeframe. -/
structure TfFeatures extends Heartbeat.TfFeatures where
  swingHigh20Prev : Option Js.Num
  swingLow20Prev : Option Js.Num
deriving DecidableEq

structure ScanThresholds where
  atrPctFloor : Option Js.Num := none
  chaseAtrMax : Option Js.Num := none
  retestVolMin : Option Js.Num := none
  breakoutWindow : Option Js.Num := none

structure ScanChecklist where
  tf : String
  atrPct : Option Js.Num
  atrFloor : Js.Num
  atrOk : Bool
  trendAgree : Option Direction
  distToBreakAtr : Option Js.Num
  withinChase : Bool
  retestConfirmed : Bool
  volRatio : Js.Num
  priceAboveEma20 : Bool
  watchEligible : Bool
deriving DecidableEq

def byTf (features : List TfFeatures) (tf : String) : Option TfFeatures := features.find? fun x => x.tf=tf

def tfDirection (x : Option TfFeatures) : Option Direction :=
  x.bind fun f => if f.ema50.lt f.ema20 then some .long else if f.ema20.lt f.ema50 then some .short else none

/-- 1h and 4h in one direction. -/
def trendAgreement (features : List TfFeatures) : Option Direction :=
  let h1 := tfDirection (byTf features "1h")
  let h4 := tfDirection (byTf features "4h")
  if h1 ≠ none ∧ h1=h4 then h1 else none

/-- One of the last closed bars closed beyond the twenty bars before it. -/
def brokeWithin (klines : List (Kline Js.Num)) (dir : Direction) (window : Js.Num) : Bool :=
  let first := (Js.Num.fin 21).max ((Js.Num.fin klines.length).sub window)
  ((List.range klines.length).reverse.takeWhile fun i : ℕ => first.le (.fin i)).any fun i =>
    let prior := (klines.take i).drop (i-20)
    (klines[i]?).any fun k =>
      match dir with
      | .long => ((prior.map Kline.high).foldl Js.Num.max (.inf true)).lt k.close
      | .short => k.close.lt ((prior.map Kline.low).foldl Js.Num.min (.inf false))

/-- `scanChecklist`, of which `base` is the first of the features. -/
def checklistOf (base : TfFeatures) (features : List TfFeatures) (klines : Option (List (Kline Js.Num)))
    (thresholds : ScanThresholds) : ScanChecklist :=
  let chaseMax := thresholds.chaseAtrMax.getD (.fin 1.5)
  let volMin := thresholds.retestVolMin.getD (.fin 1)
  let breakWindow := (Js.Num.fin 1).max (thresholds.breakoutWindow.getD (.fin 1)).floor
  let atrPct := if (Js.Num.fin 0).lt base.lastClose then some ((base.atr14.div base.lastClose).mul (.fin 100))
    else none
  let floor := thresholds.atrPctFloor.getD (.fin (atrPctFloor base.tf))
  let agree := trendAgreement features
  let level := match agree with
    | some .long => some base.swingHigh20
    | some .short => some base.swingLow20
    | none => none
  let distAtr := level.bind fun l =>
    if (Js.Num.fin 0).lt base.atr14 then some ((base.lastClose.sub l).abs.div base.atr14) else none
  let within := distAtr.any fun d => d.le chaseMax
  -- the level does not contain the bar that is compared with it, but for old records
  let beyond := match agree with
    | some .long => decide ((base.swingHigh20Prev.getD base.swingHigh20).lt base.lastClose)
    | some .short => decide (base.lastClose.lt (base.swingLow20Prev.getD base.swingLow20))
    | none => false
  let beyondRecent := beyond || decide ((Js.Num.fin 1).lt breakWindow) &&
    agree.any fun dir => klines.any fun ks => brokeWithin ks dir breakWindow
  let retest := beyondRecent && decide (volMin.le base.volRatio20)
  { tf := base.tf
    atrPct := atrPct
    atrFloor := floor
    atrOk := atrPct.any fun pct => floor.le pct
    trendAgree := agree
    distToBreakAtr := distAtr
    withinChase := within
    retestConfirmed := retest
    volRatio := base.volRatio20
    priceAboveEma20 := base.ema20.lt base.lastClose
    watchEligible := agree.isSome && within && !retest }

def scanChecklist (features : List TfFeatures) (klines : Option (List (Kline Js.Num)))
    (thresholds : ScanThresholds) : Option ScanChecklist :=
  features.head?.map fun base => checklistOf base features klines thresholds

end TradeGate.Checklist
