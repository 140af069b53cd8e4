import TradeGate.Daemon.Receipts
import TradeGate.Model.AccountStream
import TradeGate.Model.ClientOrderId
import TradeGate.Words.Forms

/-! Orders of the futures exchange: the parameters an order is sent with and what is refused before, the
signed line, and the orders by which execd closes what a symbol holds. -/
namespace TradeGate.Futures
open Js

/-- What execd takes from its libraries: the keyed hash, and the text that `{:?}` prints of a string. -/
class Crates where
  hmacSha256 : List UInt8 → List UInt8 → List UInt8
  debug : String → String

inductive OrderSide | buy | sell
deriving DecidableEq

def OrderSide.asStr : OrderSide → String
  | buy => "BUY"
  | sell => "SELL"

inductive OrderType | market | limit | stopMarket | takeProfitMarket | stop | takeProfit | trailingStopMarket
deriving DecidableEq

namespace OrderType

def asStr : OrderType → String
  | market => "MARKET"
  | limit => "LIMIT"
  | stopMarket => "STOP_MARKET"
  | takeProfitMarket => "TAKE_PROFIT_MARKET"
  | stop => "STOP"
  | takeProfit => "TAKE_PROFIT"
  | trailingStopMarket => "TRAILING_STOP_MARKET"

def needsStopPrice (t : OrderType) : Bool := t ∈ [stopMarket,takeProfitMarket,stop,takeProfit]

def needsPrice (t : OrderType) : Bool := t ∈ [limit,stop,takeProfit]

end OrderType

inductive TimeInForce | gtc | ioc | fok | gtx
deriving DecidableEq

def TimeInForce.asStr : TimeInForce → String
  | gtc => "GTC"
  | ioc => "IOC"
  | fok => "FOK"
  | gtx => "GTX"

inductive PositionSide | both | long | short
deriving DecidableEq

def PositionSide.asStr : PositionSide → String
  | both => "BOTH"
  | long => "LONG"
  | short => "SHORT"

inductive WorkingType | markPrice | contractPrice
deriving DecidableEq

def WorkingType.asStr : WorkingType → String
  | markPrice => "MARK_PRICE"
  | contractPrice => "CONTRACT_PRICE"

inductive RespType | ack | result
deriving DecidableEq

def RespType.asStr : RespType → String
  | ack => "ACK"
  | result => "RESULT"

structure NewOrderRequest where
  symbol : String
  side : OrderSide
  orderType : OrderType
  quantity : Option String := none
  price : Option String := none
  stopPrice : Option String := none
  timeInForce : Option TimeInForce := none
  reduceOnly : Option Bool := none
  closePosition : Option Bool := none
  positionSide : Option PositionSide := none
  workingType : Option WorkingType := none
  newClientOrderId : Option String := none
  newOrderRespType : Option RespType := none
deriving DecidableEq

/-- `exchange_symbol`. -/
def exchangeSymbol (symbol : String) : String :=
  String.ofList ((symbol.toList.filter fun c => c ≠ '/' ∧ c ≠ '-').map Char.toUpper)

abbrev Params := List (String × String)

section
variable [Crates]

/-- The shapes that are refused before anything is sent. -/
def NewOrderRequest.refusal (o : NewOrderRequest) : Option BinanceError :=
  if (o.positionSide=some .long ∨ o.positionSide=some .short) ∧ o.reduceOnly=some true then
    some (.ofLocalReject "hedge_invariant" "双向持仓下不得同时发送 reduceOnly 与 positionSide:方向由 positionSide 决定")
  else if o.closePosition=some true ∧ o.quantity.isSome then
    some (.ofLocalReject "close_position_invariant" "closePosition=true 与 quantity 互斥")
  else if o.closePosition ≠ some true ∧ o.quantity=none then
    some (.ofLocalReject "missing_quantity" "非 closePosition 订单必须带 quantity")
  else if o.orderType.needsStopPrice ∧ o.stopPrice=none then
    some (.ofLocalReject "missing_stop_price" (o.orderType.asStr ++ " 订单必须带 stop_price"))
  else if o.orderType.needsPrice ∧ o.price=none then
    some (.ofLocalReject "missing_price" (o.orderType.asStr ++ " 订单必须带 price"))
  else
    (o.newClientOrderId.filter fun id => !OrderId.validClientOrderId id).map fun id =>
      .ofLocalReject "bad_client_order_id"
        ("clientOrderId " ++ Crates.debug id ++ " 不满足 ^[\\.A-Z\\:/a-z0-9_-]\x7b1,36\x7d$")

/-- The parameter, if there is a value for it. -/
def param (key : String) (value : Option String) : Params := (value.map fun v => (key,v)).toList

/-- The parameter, if the flag is set. -/
def flag (key : String) (value : Option Bool) : Params := if value=some true then [(key,"true")] else []

def NewOrderRequest.params (o : NewOrderRequest) : Params :=
  [("symbol",exchangeSymbol o.symbol),("side",o.side.asStr),("type",o.orderType.asStr)]++
    param "quantity" o.quantity++param "price" o.price++param "stopPrice" o.stopPrice++
    param "timeInForce" (o.timeInForce.map TimeInForce.asStr)++flag "reduceOnly" o.reduceOnly++
    flag "closePosition" o.closePosition++param "positionSide" (o.positionSide.map PositionSide.asStr)++
    param "workingType" (o.workingType.map WorkingType.asStr)++param "newClientOrderId" o.newClientOrderId++
    [("newOrderRespType",(o.newOrderRespType.getD .result).asStr)]

/-- `to_params`. -/
def NewOrderRequest.toParams (o : NewOrderRequest) : Except BinanceError Params :=
  match o.refusal with
  | some e => .error e
  | none => .ok o.params

/-! The signed line. -/

/-- The bytes that `quote_plus` leaves as they are. -/
def quotePlain (c : Char) : Bool := c.isAlphanum || c ∈ ['_','.','-','~']

def urlencode (params : Params) : String :=
  String.ofList (Forms.write quotePlain (params.map fun p => (p.1.toList,p.2.toList)))

def hexByte (b : UInt8) : List Char := [Nat.digitChar (b.toNat/16),Nat.digitChar (b.toNat%16)]

/-- `sign_payload`. -/
def signPayload (secret payload : String) : String :=
  String.ofList ((Crates.hmacSha256 (Utf8.encode secret.toList) (Utf8.encode payload.toList)).flatMap hexByte)

structure BinanceRest where
  apiKey : String
  secret : String
  recvWindow : ℤ

def BinanceRest.hasCredentials (r : BinanceRest) : Bool := r.apiKey ≠ "" && r.secret ≠ ""

/-- `signed_query_at`. -/
def BinanceRest.signedQueryAt (r : BinanceRest) (params : Params) (timestampMs : ℤ) : Except BinanceError String :=
  if r.hasCredentials then
    let body := urlencode (params++[("recvWindow",toString r.recvWindow),("timestamp",toString timestampMs)])
    .ok (body ++ "&signature=" ++ signPayload r.secret body)
  else .error (.ofLocalReject "credentials_missing"
    ("缺少主账户 API key/secret:设置 TG_MAIN_API_KEY/TG_MAIN_API_SECRET 或写入 " ++
      "~/.trading-swarm/secrets/apikey-main.json"))

/-- The body that `place_order` posts. -/
def BinanceRest.placeOrder (r : BinanceRest) (o : NewOrderRequest) (timestampMs : ℤ) : Except BinanceError String :=
  o.toParams.bind fun params => r.signedQueryAt params timestampMs

/-- `parse_form`, with the pairs in their order. -/
def parseForm (input : String) : Params :=
  (Forms.read input.toList).map fun p => (String.ofList p.1,String.ofList p.2)

/-! Closing what a symbol holds. -/

structure ClosePositionParams where
  symbol : String
  clientOrderId : String

/-- The row of a position, if it is one of the symbol that holds something. -/
def legOf (key : String) (row : Value) : Option (String × Js.Num) :=
  match AccountStream.get row "symbol" with
  | some (.str symbol) =>
    if exchangeSymbol symbol=key then
      let amt := ((AccountStream.get row "positionAmt").bind ExecCore.f64Of).getD (.fin 0)
      if amt=.fin 0 then none
      else
        match AccountStream.get row "positionSide" with
        | some (.str side) => some (side,amt)
        | _ => some ("BOTH",amt)
    else none
  | _ => none

def legs (key : String) (rows : Value) : List (String × Js.Num) :=
  match rows with
  | .arr rows => rows.filterMap (legOf key)
  | _ => []

def absNum : Js.Num → Js.Num
  | .nan => .nan
  | .inf _ => .inf false
  | .fin q => .fin |q|

/-- `amt > 0.0`. -/
def positive : Js.Num → Bool
  | .nan => false
  | .inf negative => !negative
  | .fin q => 0<q

/-- The order that closes the leg of a number. -/
def legOrder (request : ClosePositionParams) (i : ℕ) (leg : String × Js.Num) : NewOrderRequest where
  symbol := request.symbol
  side := if positive leg.2 then .sell else .buy
  orderType := .market
  quantity := some (ExecCore.decimalText (absNum leg.2))
  newClientOrderId := some (if i=0 then request.clientOrderId else request.clientOrderId ++ toString i)
  positionSide := if leg.1="LONG" then some .long else if leg.1="SHORT" then some .short else none
  reduceOnly := if leg.1="LONG" ∨ leg.1="SHORT" then none else some true

/-- The loop over the legs, by the answers of the exchange: what is posted, and the receipts or the error that
ends it. -/
def closeLegs (answers : ℕ → Except BinanceError Value) (request : ClosePositionParams) :
    ℕ → List (String × Js.Num) → List Params × Except BinanceError (List Value)
  | _, [] => ([],.ok [])
  | i, leg::rest =>
    match (legOrder request i leg).toParams with
    | .error e => ([],.error e)
    | .ok params =>
      match answers i with
      | .error e => ([params],.error e)
      | .ok receipt =>
        let (posted,result) := closeLegs answers request (i+1) rest
        (params::posted,result.map fun receipts => receipt::receipts)

inductive Closed
  | nothing
  | closed (receipts : List Value)

/-- `close_position`. -/
def closePosition (positionRisk : Except BinanceError Value) (answers : ℕ → Except BinanceError Value)
    (request : ClosePositionParams) : List Params × Except RpcError Closed :=
  if Rust.trim request.clientOrderId.toList=[] then
    ([],.error ⟨.localReject,"close_position 必须带非空 client_order_id",none,false⟩)
  else
    match positionRisk with
    | .error e => ([],.error (.ofBinance e))
    | .ok rows =>
      match legs (exchangeSymbol request.symbol) rows with
      | [] => ([],.ok .nothing)
      | leg::rest =>
        let (posted,result) := closeLegs answers request 0 (leg::rest)
        (posted,(result.map .closed).mapError .ofBinance)

end
end TradeGate.Futures
