import TradeGate.Model.Contracts

/-! The economic part of an executable plan, and its hash. -/
namespace TradeGate.Execd

inductive PositionMode | oneWay | hedge
deriving DecidableEq

def PositionMode.asStr : PositionMode → String
  | oneWay => "one_way"
  | hedge => "hedge"

inductive OrderType
  | market | limit | stopMarket | stopLimit | takeProfitMarket | takeProfitLimit | trailingStopMarket
deriving DecidableEq

def OrderType.asStr : OrderType → String
  | market => "market"
  | limit => "limit"
  | stopMarket => "stop_market"
  | stopLimit => "stop_limit"
  | takeProfitMarket => "take_profit_market"
  | takeProfitLimit => "take_profit_limit"
  | trailingStopMarket => "trailing_stop_market"

inductive ProtectionOrderType | stopMarket | stopLimit | takeProfitMarket | takeProfitLimit
deriving DecidableEq

def ProtectionOrderType.asStr : ProtectionOrderType → String
  | stopMarket => "stop_market"
  | stopLimit => "stop_limit"
  | takeProfitMarket => "take_profit_market"
  | takeProfitLimit => "take_profit_limit"

/-- A protective order on the exchange; always reduce-only. -/
structure ProtectionLeg where
  orderType : ProtectionOrderType
  triggerPrice : UnsignedDecimal
  price : Option UnsignedDecimal
  qty : Option UnsignedDecimal
  workingType : WorkingType
  closePosition : Bool
deriving DecidableEq

structure Protection where
  stop : Option ProtectionLeg
  takeProfits : List ProtectionLeg
deriving DecidableEq

structure OrderEconomics where
  product : Product
  symbol : String
  side : Side
  positionSide : PositionSide
  positionMode : PositionMode
  orderType : OrderType
  qty : UnsignedDecimal
  price : Option UnsignedDecimal
  timeInForce : Option TimeInForce
  reduceOnly : Bool
  closePosition : Bool
  leverage : Option UInt8
  marginType : Option MarginType
  triggerPrice : Option UnsignedDecimal
  workingType : Option WorkingType
  protection : Protection
  maxNakedSeconds : UInt32
deriving DecidableEq

structure ProtectEconomics where
  product : Product
  symbol : String
  positionSide : PositionSide
  legs : List ProtectionLeg
  replaceOrderIds : List String
deriving DecidableEq

structure CancelEconomics where
  product : Product
  symbol : String
  exchangeOrderId : Option String
  clientOrderId : Option String
deriving DecidableEq

structure TransferEconomics where
  asset : String
  amount : UnsignedDecimal
  fromAccount : AccountRef
  fromWallet : Wallet
  toAccount : AccountRef
  toWallet : Wallet
deriving DecidableEq

inductive PlanEconomics
  | order (e : OrderEconomics)
  | protect (e : ProtectEconomics)
  | cancel (e : CancelEconomics)
  | transfer (e : TransferEconomics)
deriving DecidableEq

/-! The JSON of a plan; a field without a value is left out. -/
namespace Wire

/-- The members of the fields that have a value. -/
def members (fields : List (String × Option Doc)) : List (String × Doc) :=
  fields.filterMap fun m => m.2.map (m.1,·)

def object (fields : List (String × Option Doc)) : Doc := .obj (members fields)

def decimal (d : UnsignedDecimal) : Doc := text d.text

def protectionLeg (l : ProtectionLeg) : List (String × Option Doc) := [
  ("order_type",some (text l.orderType.asStr)),
  ("trigger_price",some (decimal l.triggerPrice)),
  ("price",l.price.map decimal),
  ("qty",l.qty.map decimal),
  ("working_type",some (text l.workingType.asStr)),
  ("close_position",some (.bool l.closePosition))]

def protectionLegs (ls : List ProtectionLeg) : Doc := .arr (ls.map fun l => object (protectionLeg l))

def protection (p : Protection) : List (String × Option Doc) := [
  ("stop",p.stop.map fun l => object (protectionLeg l)),
  ("take_profits",some (protectionLegs p.takeProfits))]

def orderEconomics (e : OrderEconomics) : List (String × Option Doc) := [
  ("product",some (text e.product.asStr)),
  ("symbol",some (text e.symbol)),
  ("side",some (text e.side.asStr)),
  ("position_side",some (text e.positionSide.asStr)),
  ("position_mode",some (text e.positionMode.asStr)),
  ("order_type",some (text e.orderType.asStr)),
  ("qty",some (decimal e.qty)),
  ("price",e.price.map decimal),
  ("time_in_force",e.timeInForce.map fun t => text t.asStr),
  ("reduce_only",some (.bool e.reduceOnly)),
  ("close_position",some (.bool e.closePosition)),
  ("leverage",e.leverage.map fun n => nat n.toNat),
  ("margin_type",e.marginType.map fun m => text m.asStr),
  ("trigger_price",e.triggerPrice.map decimal),
  ("working_type",e.workingType.map fun w => text w.asStr),
  ("protection",some (object (protection e.protection))),
  ("max_naked_seconds",some (nat e.maxNakedSeconds.toNat))]

def protectEconomics (e : ProtectEconomics) : List (String × Option Doc) := [
  ("product",some (text e.product.asStr)),
  ("symbol",some (text e.symbol)),
  ("position_side",some (text e.positionSide.asStr)),
  ("legs",some (protectionLegs e.legs)),
  ("replace_order_ids",some (texts e.replaceOrderIds))]

def cancelEconomics (e : CancelEconomics) : List (String × Option Doc) := [
  ("product",some (text e.product.asStr)),
  ("symbol",some (text e.symbol)),
  ("exchange_order_id",e.exchangeOrderId.map text),
  ("client_order_id",e.clientOrderId.map text)]

def transferEconomics (e : TransferEconomics) : List (String × Option Doc) := [
  ("asset",some (text e.asset)),
  ("amount",some (decimal e.amount)),
  ("from_account",some (text e.fromAccount.asStr)),
  ("from_wallet",some (text e.fromWallet.asStr)),
  ("to_account",some (text e.toAccount.asStr)),
  ("to_wallet",some (text e.toWallet.asStr))]

/-- The kind of a plan is the first of its members. -/
def planEconomics : PlanEconomics → Doc
  | .order e => object (("kind",some (text "order"))::orderEconomics e)
  | .protect e => object (("kind",some (text "protect"))::protectEconomics e)
  | .cancel e => object (("kind",some (text "cancel"))::cancelEconomics e)
  | .transfer e => object (("kind",some (text "transfer"))::transferEconomics e)

end Wire

namespace PlanEconomics

/-- `canonical_json_of` of the economic part. -/
def canonicalJsonOf (e : PlanEconomics) : Option String :=
  (Canonical.Execd.walk (Wire.planEconomics e)).map (Canonical.Tree.text Canonical.Execd.Number.text)

/-- `plan_hash`. -/
def planHash (sha256Hex : String → String) (e : PlanEconomics) : Option String :=
  e.canonicalJsonOf.map sha256Hex

end PlanEconomics
end TradeGate.Execd
