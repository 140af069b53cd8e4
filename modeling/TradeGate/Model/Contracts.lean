import TradeGate.Js.Arith
import TradeGate.Model.Canonical

/-! The records that the gateway and execd exchange: scalars, enumerations, intents, policies, events
and errors, and the table of the intent's transitions. -/
namespace TradeGate.Execd
open Js

/-! Scalars. -/

/-- Digits, without a leading zero, and maybe a fraction. -/
def validDecimal (s : String) : Bool :=
  let i := s.toList.takeWhile (· ≠ '.')
  let f := s.toList.dropWhile (· ≠ '.')
  i ≠ [] && i.all Char.isDigit && (i.length ≤ 1 || i.head? ≠ some '0') &&
    (f=[] || (f.tail ≠ [] && f.tail.all Char.isDigit))

structure UnsignedDecimal where
  text : String
  valid : validDecimal text=true
deriving DecidableEq

/-! Enumerations. -/

inductive AccountRef | main | sub
deriving DecidableEq

def AccountRef.asStr : AccountRef → String
  | main => "main"
  | sub => "sub"

inductive Product | usdmPerp | spot
deriving DecidableEq

def Product.asStr : Product → String
  | usdmPerp => "usdm_perp"
  | spot => "spot"

inductive Side | buy | sell
deriving DecidableEq

def Side.asStr : Side → String
  | buy => "buy"
  | sell => "sell"

inductive PositionSide | both | long | short
deriving DecidableEq

def PositionSide.asStr : PositionSide → String
  | both => "both"
  | long => "long"
  | short => "short"

inductive MarginType | isolated | cross
deriving DecidableEq

def MarginType.asStr : MarginType → String
  | isolated => "isolated"
  | cross => "cross"

inductive TimeInForce | gtc | ioc | fok | gtx
deriving DecidableEq

def TimeInForce.asStr : TimeInForce → String
  | gtc => "gtc"
  | ioc => "ioc"
  | fok => "fok"
  | gtx => "gtx"

/-- Which price triggers a conditional order. -/
inductive WorkingType | markPrice | contractPrice
deriving DecidableEq

def WorkingType.asStr : WorkingType → String
  | markPrice => "mark_price"
  | contractPrice => "contract_price"

inductive Wallet | spot | usdmFutures
deriving DecidableEq

def Wallet.asStr : Wallet → String
  | spot => "spot"
  | usdmFutures => "usdm_futures"

inductive Principal | user | model | cron | scheduler | mcpClient
deriving DecidableEq

def Principal.asStr : Principal → String
  | user => "user"
  | model => "model"
  | cron => "cron"
  | scheduler => "scheduler"
  | mcpClient => "mcp_client"

inductive Surface | rpc | model | mcp | internal
deriving DecidableEq

def Surface.asStr : Surface → String
  | rpc => "rpc"
  | model => "model"
  | mcp => "mcp"
  | internal => "internal"

inductive IntentKind | «open» | close | cancelOrder | protect | transfer
deriving DecidableEq

def IntentKind.asStr : IntentKind → String
  | .open => "open"
  | close => "close"
  | cancelOrder => "cancel_order"
  | protect => "protect"
  | transfer => "transfer"

inductive IntentStatus
  | proposed | rejected | awaitingApproval | authorized | recorded | dispatching | executionUnknown
  | executing | completed | canceled | expired
deriving DecidableEq

def IntentStatus.asStr : IntentStatus → String
  | proposed => "proposed"
  | rejected => "rejected"
  | awaitingApproval => "awaiting_approval"
  | authorized => "authorized"
  | recorded => "recorded"
  | dispatching => "dispatching"
  | executionUnknown => "execution_unknown"
  | executing => "executing"
  | completed => "completed"
  | canceled => "canceled"
  | expired => "expired"

inductive PolicyMode | run | stopOpening | flattenOnly | haltAll
deriving DecidableEq

def PolicyMode.asStr : PolicyMode → String
  | run => "run"
  | stopOpening => "stop_opening"
  | flattenOnly => "flatten_only"
  | haltAll => "halt_all"

/-- How strict a mode is. -/
def PolicyMode.severity : PolicyMode → ℕ
  | run => 0
  | stopOpening => 1
  | flattenOnly => 2
  | haltAll => 3

inductive Authority | observe | draft | paper | liveCapped
deriving DecidableEq

def Authority.asStr : Authority → String
  | observe => "observe"
  | draft => "draft"
  | paper => "paper"
  | liveCapped => "live_capped"

inductive ErrorKind
  | invalidParams | notFound | forbidden | halted | stale | unavailable | conflict | expired
  | invalidTransition | gateRejected | exchangeRejected | unauthorized | rateLimited
  | transportAmbiguous | internal
deriving DecidableEq

structure RpcError where
  kind : ErrorKind
  message : String
deriving DecidableEq

structure GateRejection where
  gate : String
  value : Option String
  limit : Option String
  message : String
deriving DecidableEq

/-! The transitions of an intent. -/
namespace IntentStatus

def terminal : List IntentStatus := [rejected,recorded,completed,canceled,expired]

/-- From, to, and the event between. -/
def transitions : List (IntentStatus × IntentStatus × String) := [
  (proposed,rejected,"gate_rejected"),
  (proposed,awaitingApproval,"plan_materialized"),
  (proposed,authorized,"policy_auto_authorized"),
  (proposed,recorded,"observe_only"),
  (proposed,expired,"proposal_ttl_elapsed"),
  (awaitingApproval,authorized,"user_approved"),
  (awaitingApproval,expired,"approval_ttl_elapsed"),
  (awaitingApproval,rejected,"user_rejected"),
  (awaitingApproval,rejected,"regate_rejected"),
  (authorized,dispatching,"executor_claimed"),
  (authorized,rejected,"regate_rejected"),
  (authorized,expired,"authorization_ttl_elapsed"),
  (authorized,canceled,"halted_before_dispatch"),
  (dispatching,executing,"exchange_acked"),
  (dispatching,rejected,"exchange_rejected"),
  (dispatching,rejected,"regate_rejected"),
  (dispatching,executionUnknown,"submit_ambiguous"),
  (dispatching,canceled,"halted_before_submit"),
  (executionUnknown,executing,"reconciled_found"),
  (executionUnknown,canceled,"confirmed_not_received"),
  (executing,completed,"effect_satisfied"),
  (executing,canceled,"cancel_confirmed"),
  (executing,canceled,"expired_on_exchange"),
  (executing,canceled,"compensation_close")]

def isTerminal (s : IntentStatus) : Bool := s ∈ terminal

def canTransitionTo (s target : IntentStatus) : Bool :=
  transitions.any fun t => t.1=s ∧ t.2.1=target

/-- Where an event leads; a later line of the table overrides an earlier one. -/
def nextState (s : IntentStatus) (event : String) : Option IntentStatus :=
  ((transitions.filter fun t => t.1=s ∧ t.2.2=event).getLast?).map fun t => t.2.1

structure InvalidTransition where
  source : IntentStatus
  target : IntentStatus
  event : Option String

/-- The event is not looked at. -/
def transitionTo (s target : IntentStatus) (event : Option String) :
    Except InvalidTransition IntentStatus :=
  if s.canTransitionTo target then .ok target else .error ⟨s,target,event⟩

end IntentStatus

/-! Intents. -/

inductive SizeHint | full | half | quarter
deriving DecidableEq

def SizeHint.asStr : SizeHint → String
  | full => "full"
  | half => "half"
  | quarter => "quarter"

inductive SizeSpec
  | hint (hint : SizeHint)
  | qty (qty : UnsignedDecimal)
  | notional (notional : UnsignedDecimal)
deriving DecidableEq

inductive EntrySpec
  | market (maxSlippageBps : Option ℕ)
  | limit (price : UnsignedDecimal) (timeInForce : Option TimeInForce) (postOnly : Option Bool)
deriving DecidableEq

structure StopRef where
  price : UnsignedDecimal
  trigger : WorkingType
deriving DecidableEq

structure TakeProfitSpec where
  price : UnsignedDecimal
  pct : UnsignedDecimal
  trigger : Option WorkingType
deriving DecidableEq

structure OrderRef where
  exchangeOrderId : Option String
  clientOrderId : Option String
deriving DecidableEq

def OrderRef.isEmpty (r : OrderRef) : Bool := r.exchangeOrderId.isNone && r.clientOrderId.isNone

structure OpenParams where
  product : Product
  symbol : String
  side : Side
  positionSide : Option PositionSide
  size : SizeSpec
  entry : EntrySpec
  stop : StopRef
  takeProfits : Option (List TakeProfitSpec)
  leverage : Option ℕ
  marginType : Option MarginType
  thesis : Option String
  evidenceRefs : List String
  invalidation : Option String
deriving DecidableEq

structure CloseParams where
  product : Product
  symbol : String
  positionSide : Option PositionSide
  pct : UnsignedDecimal
  order : EntrySpec
  reason : Option String
  evidenceRefs : Option (List String)
deriving DecidableEq

structure CancelOrderParams where
  product : Product
  symbol : String
  orderRef : OrderRef
  reason : Option String
deriving DecidableEq

structure ProtectParams where
  product : Product
  symbol : String
  positionSide : Option PositionSide
  stop : Option StopRef
  takeProfits : Option (List TakeProfitSpec)
  replace : Bool
  reason : Option String
deriving DecidableEq

structure TransferParams where
  asset : String
  amount : UnsignedDecimal
  fromAccount : AccountRef
  fromWallet : Wallet
  toAccount : AccountRef
  toWallet : Wallet
  reason : Option String
deriving DecidableEq

inductive IntentParams
  | «open» (p : OpenParams)
  | close (p : CloseParams)
  | cancelOrder (p : CancelOrderParams)
  | protect (p : ProtectParams)
  | transfer (p : TransferParams)
deriving DecidableEq

def IntentParams.kind : IntentParams → IntentKind
  | .open _ => .open
  | close _ => .close
  | cancelOrder _ => .cancelOrder
  | protect _ => .protect
  | transfer _ => .transfer

def IntentParams.symbol : IntentParams → Option String
  | .open p => some p.symbol
  | close p => some p.symbol
  | cancelOrder p => some p.symbol
  | protect p => some p.symbol
  | transfer _ => none

structure Intent where
  intentId : String
  account : AccountRef
  principal : Principal
  surface : Surface
  sessionId : Option String
  runId : Option String
  origin : Option String
  idempotencyKey : Option String
  params : IntentParams
  status : IntentStatus
  statusReason : Option String
  gateRejections : List GateRejection
  currentPlanId : Option String
  authorizationId : Option String
  ttlSeconds : ℕ
  createdAt : ℤ
  updatedAt : ℤ
  expiresAt : Option ℤ
  terminalAt : Option ℤ
deriving DecidableEq

/-! The JSON of the parameters; a member without a value is left out. -/
namespace Wire

abbrev Doc := Canonical.Tree Canonical.Execd.Number

def text (s : String) : Doc := .str s

def nat (n : ℕ) : Doc := .num (.posInt n)

def field (k : String) (x : Doc) : List (String × Doc) := [(k,x)]

def optional {α : Type} (k : String) (x : Option α) (f : α → Doc) : List (String × Doc) :=
  match x with
  | some a => [(k,f a)]
  | none => []

def size : SizeSpec → Doc
  | .hint h => .obj (field "mode" (text "hint")++field "hint" (text h.asStr))
  | .qty q => .obj (field "mode" (text "qty")++field "qty" (text q.text))
  | .notional n => .obj (field "mode" (text "notional")++field "notional" (text n.text))

def entry : EntrySpec → Doc
  | .market slippage => .obj (field "type" (text "market")++optional "max_slippage_bps" slippage nat)
  | .limit price tif postOnly => .obj (field "type" (text "limit")++field "price" (text price.text)++
      optional "time_in_force" tif (fun t => text t.asStr)++optional "post_only" postOnly .bool)

def stop (r : StopRef) : Doc :=
  .obj (field "price" (text r.price.text)++field "trigger" (text r.trigger.asStr))

def takeProfit (t : TakeProfitSpec) : Doc :=
  .obj (field "price" (text t.price.text)++field "pct" (text t.pct.text)++
    optional "trigger" t.trigger (fun w => text w.asStr))

def takeProfits (ts : List TakeProfitSpec) : Doc := .arr (ts.map takeProfit)

def texts (ss : List String) : Doc := .arr (ss.map text)

def orderRef (r : OrderRef) : Doc :=
  .obj (optional "exchange_order_id" r.exchangeOrderId text++
    optional "client_order_id" r.clientOrderId text)

def params : IntentParams → Doc
  | .open p => .obj (field "kind" (text "open")++field "product" (text p.product.asStr)++
      field "symbol" (text p.symbol)++field "side" (text p.side.asStr)++
      optional "position_side" p.positionSide (fun s => text s.asStr)++field "size" (size p.size)++
      field "entry" (entry p.entry)++field "stop" (stop p.stop)++
      optional "take_profits" p.takeProfits takeProfits++optional "leverage" p.leverage nat++
      optional "margin_type" p.marginType (fun m => text m.asStr)++optional "thesis" p.thesis text++
      field "evidence_refs" (texts p.evidenceRefs)++optional "invalidation" p.invalidation text)
  | .close p => .obj (field "kind" (text "close")++field "product" (text p.product.asStr)++
      field "symbol" (text p.symbol)++
      optional "position_side" p.positionSide (fun s => text s.asStr)++field "pct" (text p.pct.text)++
      field "order" (entry p.order)++optional "reason" p.reason text++
      optional "evidence_refs" p.evidenceRefs texts)
  | .cancelOrder p => .obj (field "kind" (text "cancel_order")++
      field "product" (text p.product.asStr)++field "symbol" (text p.symbol)++
      field "order_ref" (orderRef p.orderRef)++optional "reason" p.reason text)
  | .protect p => .obj (field "kind" (text "protect")++field "product" (text p.product.asStr)++
      field "symbol" (text p.symbol)++
      optional "position_side" p.positionSide (fun s => text s.asStr)++optional "stop" p.stop stop++
      optional "take_profits" p.takeProfits takeProfits++field "replace" (.bool p.replace)++
      optional "reason" p.reason text)
  | .transfer p => .obj (field "kind" (text "transfer")++field "asset" (text p.asset)++
      field "amount" (text p.amount.text)++field "from_account" (text p.fromAccount.asStr)++
      field "from_wallet" (text p.fromWallet.asStr)++field "to_account" (text p.toAccount.asStr)++
      field "to_wallet" (text p.toWallet.asStr)++optional "reason" p.reason text)

end Wire

/-- `canonical_json_of` of the parameters; none where a number is not an integer. -/
def canonicalJsonOf (p : IntentParams) : Option String :=
  (Canonical.Execd.walk (Wire.params p)).map (Canonical.Tree.text Canonical.Execd.Number.text)

/-! Policies. -/

structure Caps where
  maxLeverage : ℕ
  riskPctPerTrade : UnsignedDecimal
  maxOrderNotional : UnsignedDecimal
  maxPositionNotional : UnsignedDecimal
  maxDailyOpens : ℕ
  dailyLossStopPct : UnsignedDecimal
  symbolCooldownSeconds : ℕ
  maxNakedSeconds : ℕ
  accountTruthMaxAgeMs : ℕ
  marketMaxAgeMs : ℕ
  authorizationTtlMarketSeconds : ℕ
  authorizationTtlLimitSeconds : ℕ
  maxPriceDeviationBps : ℕ
  ntpDriftBlockMs : ℕ
  ntpDriftHaltMs : ℕ
deriving DecidableEq

structure MainAccountPolicy where
  manualTradingEnabled : Bool
  transfersEnabled : Bool
  withdrawEnabled : Bool
deriving DecidableEq

def MainAccountPolicy.validate (p : MainAccountPolicy) : Except String Unit :=
  if p.withdrawEnabled then
    .error "withdraw_enabled 在 v1 契约里恒为 false(§16 Q7 默认不勾提币)"
  else .ok ()

structure CanaryPolicy where
  enabled : Bool
  maxLossQuote : Option UnsignedDecimal
  maxNotionalQuote : Option UnsignedDecimal
  maxLeverage : Option ℕ
  fundedBalanceQuote : Option UnsignedDecimal
deriving DecidableEq

structure ExecPolicy where
  version : UInt32
  updatedAt : ℤ
  mode : PolicyMode
  authority : Authority
  emergencyStop : Bool
  liveCappedEnabled : Bool
  symbolAllowlist : List String
  productAllowlist : List Product
  caps : Caps
  mainAccount : MainAccountPolicy
  canary : CanaryPolicy
deriving DecidableEq

structure PolicyConfirm where
  mode : String
  authority : String
deriving DecidableEq

inductive EmergencyMode | stopOpening | flattenOnly | haltAll
deriving DecidableEq

def EmergencyMode.asPolicyMode : EmergencyMode → PolicyMode
  | stopOpening => .stopOpening
  | flattenOnly => .flattenOnly
  | haltAll => .haltAll

/-! Events. -/

inductive EventName
  | intentCreated | intentRejected | intentAwaitingApproval | intentAuthorized | intentRecorded
  | intentDispatching | intentExecuting | intentExecutionUnknown | intentCompleted | intentCanceled
  | intentExpired | planMaterialized | authorizationGranted | authorizationConsumed
  | authorizationInvalidated | authorizationExpired | authorizationRevoked | attemptSubmitting
  | attemptSubmitted | attemptResolved | orderObserved | fillObserved | effectEvaluated
  | protectionConfirmed | protectionMissing | protectionCompensated | accountUpdated | accountStale
  | accountInconsistent | foreignActivityDetected | exchangeAuthExpiring | exchangeAuthExpired
  | exchangeAuthRevoked | exchangeAuthRefreshed | exchangeToolsDrift | exchangeChannelDegraded
  | exchangeChannelRecovered | policyChanged | haltChanged | writerFenced | corruptionDetected | health
deriving DecidableEq

def EventName.forIntentStatus : IntentStatus → EventName
  | .proposed => intentCreated
  | .rejected => intentRejected
  | .awaitingApproval => intentAwaitingApproval
  | .authorized => intentAuthorized
  | .recorded => intentRecorded
  | .dispatching => intentDispatching
  | .executionUnknown => intentExecutionUnknown
  | .executing => intentExecuting
  | .completed => intentCompleted
  | .canceled => intentCanceled
  | .expired => intentExpired

structure ExecEvent where
  seq : ℕ
  event : EventName
  «at» : ℤ
  account : Option AccountRef
  intentId : Option String
  symbol : Option String
  payload : List (String × Value)

/-! Requests. -/

structure PolicySetParams where
  policy : ExecPolicy
  confirm : PolicyConfirm
  principal : Principal
  surface : Surface
deriving DecidableEq

structure EmergencyStopParams where
  mode : EmergencyMode
  reason : String
  principal : Principal
  surface : Surface
deriving DecidableEq

structure IntentProposeParams where
  account : AccountRef
  principal : Principal
  surface : Surface
  sessionId : Option String
  runId : Option String
  origin : Option String
  idempotencyKey : Option String
  params : IntentParams
  ttlSeconds : Option ℕ
deriving DecidableEq

structure IntentRejectParams where
  intentId : String
  reason : String
  principal : Principal
  surface : Surface
deriving DecidableEq

end TradeGate.Execd
