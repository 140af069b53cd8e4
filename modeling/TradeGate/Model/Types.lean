import TradeGate.Js.Number

/-! Domain model of the gateway: threads, intents, account views, and the requests the runtime
sends to its execution backend. -/
namespace TradeGate

inductive Direction | long | short
deriving DecidableEq

def Direction.opposite : Direction → Direction
  | .long => .short
  | .short => .long

def Direction.word : Direction → String
  | .long => "多"
  | .short => "空"

def Direction.text : Direction → String
  | .long => "long"
  | .short => "short"

@[simp] theorem Direction.opposite_opposite (d : Direction) : d.opposite.opposite=d := by
  cases d <;> rfl

inductive Backend | paper | demo | cli | agentMcp
deriving DecidableEq

def Backend.text : Backend → String
  | paper => "paper"
  | demo => "demo"
  | cli => "cli"
  | agentMcp => "agent_mcp"

inductive ThreadStatus | pendingEntry | inPosition | closed | canceled | invalidated
deriving DecidableEq

def ThreadStatus.text : ThreadStatus → String
  | pendingEntry => "pending_entry"
  | inPosition => "in_position"
  | closed => "closed"
  | canceled => "canceled"
  | invalidated => "invalidated"

inductive ThreadSource | agent | manual | chat
deriving DecidableEq

/-- The machine-readable "needs a human" flag of a thread. -/
inductive Attention
  | protectionMissing | orderUnknown | externalPosition | entryRemainder
  | haltIncomplete | closeFailed | cancelUnknown
deriving DecidableEq

inductive EntryType | market | limit
deriving DecidableEq

def EntryType.text : EntryType → String
  | market => "market"
  | limit => "limit"

inductive MarginMode | cross | isolated
deriving DecidableEq

structure Entry where
  type : EntryType
  price : Option String
deriving DecidableEq

/-- The persisted plan for one symbol. -/
structure StrategyThread where
  id : String
  backend : Option Backend
  symbol : String
  side : Direction
  status : ThreadStatus
  source : ThreadSource
  timeframe : String
  entry : Entry
  stopPrice : Option String
  takeProfits : List String
  qty : String
  leverage : ℕ
  marginMode : MarginMode
  entryClientOrderId : Option String
  protectionClientOrderIds : List String
  filledAvgPrice : Option String
  realizedPnl : Option String
  exitPrice : Option String
  closeReason : Option String
  attention : Option Attention
  entryLookupMisses : ℕ
  entrySubmittingSince : Option ℕ
  entrySubmittedAt : Option ℕ
  legSeq : ℕ
  intentIds : List String
  createdAt : ℕ
  updatedAt : ℕ
  openedAt : Option ℕ
  closedAt : Option ℕ
  version : ℕ
deriving DecidableEq

inductive IntentStatus | pendingApproval | approved | rejected | submitted | filled | failed | unknown
deriving DecidableEq

def IntentStatus.text : IntentStatus → String
  | pendingApproval => "pending_approval"
  | approved => "approved"
  | rejected => "rejected"
  | submitted => "submitted"
  | filled => "filled"
  | failed => "failed"
  | unknown => "unknown"

inductive IntentKind | open | close | reduce
deriving DecidableEq

def IntentKind.text : IntentKind → String
  | .open => "open"
  | .close => "close"
  | .reduce => "reduce"

inductive Principal | agent | user
deriving DecidableEq

structure DemoIntent where
  id : String
  threadId : Option String
  principal : Principal
  createdAt : ℕ
  kind : IntentKind
  symbol : String
  direction : Direction
  quantity : String
  entry : EntryType
  limitPrice : Option String
  stopPrice : Option String
  takeProfitPrice : Option String
  riskPct : String
  status : IntentStatus
  clientOrderId : Option String
  backend : Backend
  error : Option String
deriving DecidableEq

/-- What a one-time confirmation is for. -/
inductive ConfirmKind | intent | workflowProposal
deriving DecidableEq

/-- A one-time confirmation, bound to a target and to the fingerprint of its contents. -/
structure ConfirmToken where
  nonce : String
  kind : ConfirmKind
  targetId : String
  fingerprint : String
  issuedAt : ℕ
  expiresAt : ℕ
deriving DecidableEq

structure PositionView where
  symbol : String
  side : Direction
  qty : String
  entryPrice : String
  markPrice : String
  leverage : ℕ
deriving DecidableEq

structure OpenOrderView where
  symbol : String
  clientOrderId : String
  type : String
  side : String
  stopPrice : Option String
  reduceOnly : Bool
deriving DecidableEq

structure AccountView where
  backend : Backend
  equity : String
  positions : List PositionView
  openOrders : List OpenOrderView
deriving DecidableEq

/-- Order states as the exchange names them. -/
inductive OrderStatus | new | partiallyFilled | filled | canceled | expired | rejected | other (s : String)
deriving DecidableEq

def OrderStatus.text : OrderStatus → String
  | new => "NEW"
  | partiallyFilled => "PARTIALLY_FILLED"
  | filled => "FILLED"
  | canceled => "CANCELED"
  | expired => "EXPIRED"
  | rejected => "REJECTED"
  | other s => s

/-- The three states in which an order ended without a fill. -/
def OrderStatus.dead (s : OrderStatus) : Prop := s=.canceled ∨ s=.expired ∨ s=.rejected

instance (s : OrderStatus) : Decidable s.dead := inferInstanceAs (Decidable (_ ∨ _ ∨ _))

structure OrderStatusView where
  status : OrderStatus
  avgPrice : Option String
  executedQty : String
deriving DecidableEq

inductive OrderOutcome | filled | submitted | unknown | failed
deriving DecidableEq

/-- The status of a reducing intent after its order. -/
def OrderOutcome.reduceStatus : OrderOutcome → IntentStatus
  | .failed => .failed
  | .unknown => .unknown
  | _ => .filled

structure OrderReceipt where
  outcome : OrderOutcome
  avgPrice : Option String
  error : Option String
deriving DecidableEq

structure EntryRequest where
  symbol : String
  direction : Direction
  qty : String
  entry : EntryType
  limitPrice : Option String
  clientOrderId : String
deriving DecidableEq

structure OpenWithProtectionRequest where
  entry : EntryRequest
  stopPrice : String
  stopClientAlgoId : String
  takeProfit : Option (String × String)
deriving DecidableEq

inductive LegOutcome | filled | submitted | unknown | failed | skipped
deriving DecidableEq

structure AlgoLegReceipt where
  outcome : LegOutcome
  error : Option String
deriving DecidableEq

structure OpenWithProtectionReceipt where
  entry : OrderReceipt
  stop : AlgoLegReceipt
  tp : AlgoLegReceipt
deriving DecidableEq

/-- What `closePosition` reports; the receipt is kept to its profit and its price. -/
structure CloseReceipt where
  closed : Bool
  realizedPnl : Option String
  avgPrice : Option String
  error : Option String
deriving DecidableEq

structure Ack where
  ok : Bool
  error : Option String
deriving DecidableEq

structure SymbolRules where
  stepSize : String
  tickSize : String
  minQty : String
  minNotional : String
deriving DecidableEq

inductive PaperEventKind | entryFilled | slHit | tpHit
deriving DecidableEq

structure PaperEvent where
  kind : PaperEventKind
  symbol : String
  price : String
  realizedPnl : Option String
deriving DecidableEq

/-- The awaits of the runtime: the backend's operations, the market data of the opening gate, a
timer, joining the account poll, and the start and stop of a backend. -/
inductive Call
  | account
  | getOrder (symbol cid : String)
  | algoOrderExists (symbol cid : String)
  | listAlgoOrders (symbol : String)
  | cancelAlgoOrder (symbol cid : String)
  | symbolRules (symbol : String)
  | markPrice (symbol : String)
  | placeEntry (req : EntryRequest)
  | openWithProtection (req : OpenWithProtectionRequest)
  | placeStop (symbol : String) (position : Direction) (stopPrice cid : String)
  | placeTakeProfit (symbol : String) (position : Direction) (tpPrice cid : String)
  | closePosition (symbol cid : String)
  | reducePosition (symbol qty cid : String)
  | cancelAll (symbol : String)
  | cancelOrder (symbol cid : String)
  | setLeverage (symbol : String) (leverage : ℕ)
  | setMarginType (symbol : String) (mode : MarginMode)
  | openingData (symbol timeframe : String)
  | marketView (symbol timeframe : String)
  | sleep (ms : ℕ)
  | pollAccount
  | startBackend (kind : Backend)
  | stopBackend (kind : Backend)
deriving DecidableEq

/-- What each await resolves to.  Reads may reject; orders and cancels report their failure in
the receipt. -/
abbrev Answer : Call → Type
  | .account => Except String AccountView
  | .getOrder _ _ => Except String (Option OrderStatusView)
  | .algoOrderExists _ _ => Except String (Option Bool)
  | .listAlgoOrders _ => Except String (Option (List String))
  | .cancelAlgoOrder _ _ => Ack
  | .symbolRules _ => Except String SymbolRules
  | .markPrice _ => Except String String
  | .placeEntry _ => OrderReceipt
  | .openWithProtection _ => OpenWithProtectionReceipt
  | .placeStop _ _ _ _ => OrderReceipt
  | .placeTakeProfit _ _ _ _ => OrderReceipt
  | .closePosition _ _ => CloseReceipt
  | .reducePosition _ _ _ => Except String OrderReceipt
  | .cancelAll _ => Ack
  | .cancelOrder _ _ => Ack
  | .setLeverage _ _ => Ack
  | .setMarginType _ _ => Ack
  | .openingData _ _ => Except String (String × SymbolRules)
  | .marketView _ _ => Except String String
  | .sleep _ => Unit
  | .pollAccount => Unit
  | .startBackend _ => Except String Unit
  | .stopBackend _ => Except String Unit

/-- The entry a request asks for. -/
def Call.entry? : Call → Option EntryRequest
  | .placeEntry req => some req
  | .openWithProtection req => some req.entry
  | _ => none

end TradeGate
