import TradeGate.Model.Judgment

/-! Prices on their way from the exchange: the view of a symbol, and what the demo backend reports. -/
namespace TradeGate

structure PremiumIndex where
  markPrice : String
  indexPrice : String
  lastFundingRate : String
  nextFundingTime : ℕ
  time : ℕ
deriving DecidableEq

structure OpenInterest where
  openInterest : String
  time : ℕ
deriving DecidableEq

structure Ticker24h where
  lastPrice : String
  priceChangePercent : String
  quoteVolume : String
  highPrice : String
  lowPrice : String
deriving DecidableEq

structure MarketView where
  symbol : String
  last : String
  mark : String
  fundingRate : String
  nextFundingAt : ℕ
  openInterest : String
  asOf : ℕ
  klinesTf : String
deriving DecidableEq

def trimDecimal (s : String) (places : ℕ) : String :=
  let n := Js.Num.ofText s
  if n.isFinite then n.toFixed places else s

/-- `fetchMarketView`, once its three requests are answered. -/
def fetchMarketView (symbol tf : String) (pi : PremiumIndex) (oi : OpenInterest) (t : Ticker24h) (now : ℕ) :
    MarketView :=
  { symbol := symbol
    last := t.lastPrice
    mark := trimDecimal pi.markPrice 2
    fundingRate := pi.lastFundingRate
    nextFundingAt := pi.nextFundingTime
    openInterest := oi.openInterest
    asOf := now
    klinesTf := tf }

/-- What the gates look at. -/
def MarketView.snapshot (v : MarketView) : MarketSnapshot := ⟨v.mark,v.asOf⟩

/-! The demo backend. -/
namespace DemoBackend

/-- A row of the exchange's positions. -/
structure Row where
  symbol : String
  positionAmt : Option String
  entryPrice : Option String
  markPrice : Option String
  leverage : ℕ
deriving DecidableEq

def markPrice (markPrice : String) : String := (Js.Num.ofText markPrice).toFixed 2

/-- A position of `account`; there is none of no amount. -/
def positionView (p : Row) : Option PositionView :=
  let amt := Js.Num.ofText (p.positionAmt.getD "0")
  if amt=.fin 0 then none
  else some
    { symbol := p.symbol
      side := if (Js.Num.fin 0).lt amt then .long else .short
      qty := amt.abs.text
      entryPrice := (Js.Num.ofText (p.entryPrice.getD "0")).toFixed 1
      markPrice := (Js.Num.ofText (p.markPrice.getD "0")).toFixed 1
      leverage := p.leverage }

/-- The receipt of an order that was taken, with the average price of its fills. -/
def receipt (status : String) (avgPrice : Option String) : OrderReceipt :=
  let avg := Js.Num.ofText (avgPrice.getD "0")
  { outcome := if status="FILLED" then .filled else .submitted
    avgPrice := if (Js.Num.fin 0).lt avg then some (avg.toFixed 1) else none
    error := none }

end DemoBackend
end TradeGate
