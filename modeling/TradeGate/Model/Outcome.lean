import Mathlib.Algebra.Field.Defs
import Mathlib.Algebra.Order.Ring.Defs
import TradeGate.Model.Types

/-! What becomes of an order on bars that the judgment could not see.  Prices are numbers of a linear
ordered field, so that the same definitions run on exact rationals and are compared with price paths
over the reals. -/
namespace TradeGate

/-- The prices of a bar; `openPrice` is `open`. -/
structure Kline (K : Type) where
  openPrice : K
  high : K
  low : K
  close : K
deriving DecidableEq

/-- The bar's open and close lie between its low and its high. -/
structure Kline.WellFormed {K : Type} [LE K] (b : Kline K) : Prop where
  low_open : b.low ≤ b.openPrice
  low_close : b.low ≤ b.close
  open_high : b.openPrice ≤ b.high
  close_high : b.close ≤ b.high

namespace Outcomes

variable {K : Type}

structure OutcomeInput (K : Type) where
  direction : Direction
  entry : EntryType
  limitPrice : Option K
  stop : K
  tp : Option K
  bars : List (Kline K)
deriving DecidableEq

inductive OutcomeStatus | stop | tp | expired | unfilled | invalid
deriving DecidableEq

/-- The notes of an outcome, with the numbers that one of them prints. -/
inductive Note (K : Type)
  | noBars
  | noLimitPrice
  | notTouched
  | wrongSide (stop fill : K)
  | bothTouched
  | gappedStop
  | touchedStop
  | gappedTp
  | touchedTp
  | horizon
deriving DecidableEq

def Note.text (print : K → String) : Note K → String
  | noBars => "没有未来 K 线"
  | noLimitPrice => "限价单没有 limit_price"
  | notTouched => "限价在 horizon 内未触及"
  | wrongSide stop fill => "止损 " ++ print stop ++ " 在成交价 " ++ print fill ++ " 的错误一侧"
  | bothTouched => "同根同时触及止损与止盈,按止损计"
  | gappedStop => "跳空穿越止损,按开盘价出"
  | touchedStop => "触及止损"
  | gappedTp => "跳空穿越止盈,按开盘价出"
  | touchedTp => "触及止盈"
  | horizon => "到期按收盘价出"

structure Outcome (K : Type) where
  status : OutcomeStatus
  fillPrice : Option K
  fillBar : Option ℕ
  exitPrice : Option K
  exitBar : Option ℕ
  stopDistance : Option K
  r : Option K
  maeR : Option K
  mfeR : Option K
  barsHeld : Option ℕ
  note : Note K
deriving DecidableEq

/-- `none(status, note)`. -/
def Outcome.without (status : OutcomeStatus) (note : Note K) : Outcome K :=
  ⟨status,none,none,none,none,none,none,none,none,none,note⟩

/-- A filled position walked forward one bar at a time; every R is taken over `stopDistance`. -/
structure OpenTrade (K : Type) where
  direction : Direction
  fillPrice : K
  stop : K
  tp : Option K
  stopDistance : K
  maeR : K
  mfeR : K
  barsHeld : ℕ
deriving DecidableEq

inductive ExitStatus | stop | tp
deriving DecidableEq

def ExitStatus.outcome : ExitStatus → OutcomeStatus
  | stop => .stop
  | tp => .tp

structure Exit (K : Type) where
  price : K
  status : ExitStatus
  note : Note K
deriving DecidableEq

variable [Field K] [LinearOrder K]

def sgn : Direction → K
  | .long => 1
  | .short => -1

/-- `none` when the stop sits on the wrong side of the fill. -/
def openTrade (direction : Direction) (fill stop : K) (tp : Option K) : Option (OpenTrade K) :=
  let stopDistance := sgn direction*(fill-stop)
  if ¬0<stopDistance then none else some ⟨direction,fill,stop,tp,stopDistance,0,0,0⟩

/-- Signed R of a price, positive in the trade's favour. -/
def tradeR (t : OpenTrade K) (px : K) : K := sgn t.direction*(px-t.fillPrice)/t.stopDistance

def adverse (d : Direction) (bar : Kline K) : K :=
  match d with
  | .long => bar.low
  | .short => bar.high

def favorable (d : Direction) (bar : Kline K) : K :=
  match d with
  | .long => bar.high
  | .short => bar.low

/-- The bar reaches the price from the side of the profit: `hitStop`, and `touched` of a limit. -/
def hitStop (d : Direction) (stop : K) (bar : Kline K) : Bool :=
  match d with
  | .long => bar.low ≤ stop
  | .short => stop ≤ bar.high

def hitTp (d : Direction) (tp : K) (bar : Kline K) : Bool :=
  match d with
  | .long => tp ≤ bar.high
  | .short => bar.low ≤ tp

/-- `gapped` of a stop. -/
def gapsStop (d : Direction) (o stop : K) : Bool :=
  match d with
  | .long => o<stop
  | .short => stop<o

/-- `gapped` of a take-profit. -/
def gapsTp (d : Direction) (o tp : K) : Bool :=
  match d with
  | .long => tp<o
  | .short => o<tp

/-- One bar against an open trade: the excursions, then the stop, then the take-profit. -/
def stepTrade (t : OpenTrade K) (bar : Kline K) : OpenTrade K × Option (Exit K) :=
  let d := t.direction
  let o := bar.openPrice
  let t' := { t with
    barsHeld := t.barsHeld+1
    maeR := min t.maeR (tradeR t (adverse d bar))
    mfeR := max t.mfeR (tradeR t (favorable d bar)) }
  if hitStop d t.stop bar then
    let gapped := gapsStop d o t.stop
    (t',some ⟨if gapped then o else t.stop,.stop,
      if t.tp.any fun tp => hitTp d tp bar then .bothTouched
      else if gapped then .gappedStop else .touchedStop⟩)
  else
    match t.tp with
    | none => (t',none)
    | some tp =>
      if hitTp d tp bar then
        let gapped := gapsTp d o tp
        (t',some ⟨if gapped then o else tp,.tp,if gapped then .gappedTp else .touchedTp⟩)
      else (t',none)

/-- The price at which a limit fills in a bar that touches it. -/
def limitFill (d : Direction) (lim : K) (bar : Kline K) : K :=
  match d with
  | .long => min bar.openPrice lim
  | .short => max bar.openPrice lim

/-- The first bar, from the `i`th on, that touches the limit, and the price there. -/
def findTouch (d : Direction) (lim : K) : ℕ → List (Kline K) → Option (ℕ × K)
  | _, [] => none
  | i, b::bars => if hitStop d lim b then some (i,limitFill d lim b) else findTouch d lim (i+1) bars

/-- The bar and the price of the fill. -/
def findFill (d : Direction) (entry : EntryType) (limitPrice : Option K) (bars : List (Kline K)) :
    Option (ℕ × K) :=
  match bars with
  | [] => none
  | b::_ =>
    match entry, limitPrice with
    | .market, _ => some (0,b.openPrice)
    | .limit, none => none
    | .limit, some lim => findTouch d lim 0 bars

/-- The loop of `simulateOutcome`: the trade as it is left, with the exit and its bar. -/
def walkTrade (t : OpenTrade K) : ℕ → List (Kline K) → OpenTrade K × Option (ℕ × Exit K)
  | _, [] => (t,none)
  | i, b::bars =>
    match stepTrade t b with
    | (t,some e) => (t,some (i,e))
    | (t,none) => walkTrade t (i+1) bars

def simulateOutcome (inp : OutcomeInput K) : Outcome K :=
  match inp.bars.getLast? with
  | none => .without .invalid .noBars
  | some last =>
    if inp.entry=.limit ∧ inp.limitPrice=none then .without .invalid .noLimitPrice
    else
      match findFill inp.direction inp.entry inp.limitPrice inp.bars with
      | none => .without .unfilled .notTouched
      | some (bar,price) =>
        match openTrade inp.direction price inp.stop inp.tp with
        | none => .without .invalid (.wrongSide inp.stop price)
        | some t =>
          match walkTrade t bar (inp.bars.drop bar) with
          | (t,some (i,e)) =>
            { status := e.status.outcome
              fillPrice := some price
              fillBar := some bar
              exitPrice := some e.price
              exitBar := some i
              stopDistance := some t.stopDistance
              r := some (tradeR t e.price)
              maeR := some t.maeR
              mfeR := some t.mfeR
              barsHeld := some t.barsHeld
              note := e.note }
          | (t,none) =>
            { status := .expired
              fillPrice := some price
              fillBar := some bar
              exitPrice := some last.close
              exitBar := some (inp.bars.length-1)
              stopDistance := some t.stopDistance
              r := some (tradeR t last.close)
              maeR := some t.maeR
              mfeR := some t.mfeR
              barsHeld := some t.barsHeld
              note := .horizon }

end Outcomes
end TradeGate
