import TradeGate.Machine.Run
import TradeGate.Model.Filters

/-! The account cache of the execution daemon: what the user data stream and the REST snapshots put
into it, and when its orders and positions are served as fresh.  Times are seconds. -/
namespace TradeGate.AccountStream
open Js

def staleAfterSeconds : ℚ := 600

def restFallbackSeconds : ℚ := 10

/-- A row of the cache, in the shape of the REST snapshots. -/
abbrev Row := List (String × Value)

/-! Readers of a raw event. -/

/-- `value.get(key)`. -/
def get (value : Value) (key : String) : Option Value :=
  match value with
  | .obj fields => field fields key
  | _ => none

def text (value : Value) (key : String) : String :=
  match get value key with
  | some (.str s) => s
  | _ => ""

/-- Texts as they are, numbers as decimals, and zero for anything else. -/
def decimal (value : Value) (key : String) : String :=
  match get value key with
  | some (.str s) => s
  | some (.num x) => ExecCore.decimalText (ExecCore.asF64 x)
  | _ => "0"

/-- `as i64` of a double. -/
def asI64 : Js.Num → ℤ
  | .nan => 0
  | .inf negative => if negative then -2^63 else 2^63-1
  | .fin q => max (-2^63) (min (2^63-1) (if q<0 then ⌈q⌉ else ⌊q⌋))

def int (value : Value) (key : String) : ℤ :=
  ((get value key).bind ExecCore.f64Of).elim 0 asI64

def truthy : Option Value → Bool
  | some (.bool flag) => flag
  | some (.num x) => ExecCore.asF64 x ≠ .fin 0
  | some (.str s) => (Rust.trim s.toList).map Char.toLower ∈
      ["1".toList,"true".toList,"yes".toList,"y".toList,"on".toList]
  | _ => false

/-- The field `o` of `ORDER_TRADE_UPDATE`. -/
structure OrderUpdate where
  symbol : String
  clientOrderId : String
  orderId : ℤ
  side : String
  orderType : String
  timeInForce : String
  origQty : String
  executedQty : String
  lastFilledQty : String
  price : String
  avgPrice : String
  stopPrice : String
  status : String
  executionType : String
  positionSide : String
  reduceOnly : Bool
  closePosition : Bool
  updateTimeMs : ℤ

namespace OrderUpdate

def fromWs (raw : Value) : OrderUpdate where
  symbol := text raw "s"
  clientOrderId := text raw "c"
  orderId := int raw "i"
  side := text raw "S"
  orderType := text raw "o"
  timeInForce := text raw "f"
  origQty := decimal raw "q"
  executedQty := decimal raw "z"
  lastFilledQty := decimal raw "l"
  price := decimal raw "p"
  avgPrice := decimal raw "ap"
  stopPrice := decimal raw "sp"
  status := text raw "X"
  executionType := text raw "x"
  positionSide := text raw "ps"
  reduceOnly := truthy (get raw "R")
  closePosition := truthy (get raw "cp")
  updateTimeMs := int raw "T"

def isTerminal (u : OrderUpdate) : Bool :=
  u.status ∈ ["FILLED","CANCELED","EXPIRED","REJECTED","EXPIRED_IN_MATCH"]

def toRow (u : OrderUpdate) : Row :=
  [("symbol",.str u.symbol),("clientOrderId",.str u.clientOrderId),("side",.str u.side),
    ("type",.str u.orderType),("timeInForce",.str u.timeInForce),("origQty",.str u.origQty),
    ("executedQty",.str u.executedQty),("lastFilledQty",.str u.lastFilledQty),("price",.str u.price),
    ("avgPrice",.str u.avgPrice),("stopPrice",.str u.stopPrice),("status",.str u.status),
    ("executionType",.str u.executionType),("positionSide",.str u.positionSide),
    ("reduceOnly",.bool u.reduceOnly),("closePosition",.bool u.closePosition),
    ("updateTime",.num (.fin u.updateTimeMs))] ++
  -- an id of zero is a placeholder and must not cover the one of the snapshot
  if u.orderId=0 then [] else [("orderId",.num (.fin u.orderId))]

/-- The row is of the same order: by its id, or by its client's id. -/
def same (u : OrderUpdate) (row : Row) : Bool :=
  field row "orderId"=some (.num (.fin u.orderId)) ∨
    u.clientOrderId ≠ "" ∧ field row "clientOrderId"=some (.str u.clientOrderId)

end OrderUpdate

/-- A row of `a.P` of `ACCOUNT_UPDATE`. -/
structure PositionUpdate where
  symbol : String
  positionSide : String
  positionAmt : String
  entryPrice : String
  breakevenPrice : String
  unrealizedPnl : String
  marginType : String
  isolatedWallet : String

namespace PositionUpdate

def fromWs (raw : Value) : PositionUpdate where
  symbol := text raw "s"
  positionSide := text raw "ps"
  positionAmt := decimal raw "pa"
  entryPrice := decimal raw "ep"
  breakevenPrice := decimal raw "bep"
  unrealizedPnl := decimal raw "up"
  marginType := text raw "mt"
  isolatedWallet := decimal raw "iw"

/-- An amount that cannot be read counts as none. -/
def isFlat (u : PositionUpdate) : Bool :=
  ((ExecCore.parseF64 u.positionAmt).map fun v => decide (v=.fin 0)).getD true

def toRow (u : PositionUpdate) : Row :=
  [("symbol",.str u.symbol),("positionSide",.str u.positionSide),("positionAmt",.str u.positionAmt),
    ("entryPrice",.str u.entryPrice),("breakEvenPrice",.str u.breakevenPrice),
    ("unrealizedProfit",.str u.unrealizedPnl),("marginType",.str u.marginType),
    ("isolatedWallet",.str u.isolatedWallet)]

def same (u : PositionUpdate) (row : Row) : Bool :=
  field row "symbol"=some (.str u.symbol) ∧ field row "positionSide"=some (.str u.positionSide)

end PositionUpdate

/-- Sets a member where it stands, or adds it. -/
def putField (key : String) (value : Value) : Row → Row
  | [] => [(key,value)]
  | f::fs => if f.1=key then (key,value)::fs else f::putField key value fs

/-- An increment does not wipe out what only the snapshot has. -/
def mergeNonEmpty (target update : Row) : Row :=
  update.foldl (fun row f => if f.2=.null ∨ f.2=.str "" then row else putField f.1 f.2 row) target

/-- The first row of the kind merged with the update, or the update added at the end. -/
def mergeInto (same : Row → Bool) (update : Row) : List Row → List Row
  | [] => [update]
  | row::rows => if same row then mergeNonEmpty row update::rows else row::mergeInto same update rows

def OrderUpdate.apply (u : OrderUpdate) (rows : List Row) : List Row :=
  if u.isTerminal then rows.filter fun row => !u.same row else mergeInto u.same u.toRow rows

def PositionUpdate.apply (u : PositionUpdate) (rows : List Row) : List Row :=
  if u.isFlat then rows.filter fun row => !u.same row else mergeInto u.same u.toRow rows

inductive AccountReadKind | orders | positions
deriving DecidableEq

inductive RestFallbackState | permit | inFlight | throttled
deriving DecidableEq

structure AccountStreamCache where
  connected : Bool := false
  ordersInitialized : Bool := false
  positionsInitialized : Bool := false
  orders : List Row := []
  positions : List Row := []
  ordersReconciledAt : ℚ := 0
  positionsReconciledAt : ℚ := 0
  lastEventAt : ℚ := 0
  lastOrdersRestAt : ℚ := 0
  lastPositionsRestAt : ℚ := 0
  ordersRestInFlightAt : ℚ := 0
  positionsRestInFlightAt : ℚ := 0

/-- What the stream brings; other events change nothing. -/
inductive UserStreamEvent
  | order (u : OrderUpdate)
  | position (us : List PositionUpdate)
  | listenKeyExpired

/-- The event in a message, if it is one of these. -/
def UserStreamEvent.parse (event : Value) : Option UserStreamEvent :=
  match text event "e" with
  | "ORDER_TRADE_UPDATE" => (get event "o").map fun raw => .order (.fromWs raw)
  | "ACCOUNT_UPDATE" =>
    match (get event "a").bind fun a => get a "P" with
    | some (.arr raws) => some (.position (raws.map .fromWs))
    | _ => some (.position [])
  | "listenKeyExpired" => some .listenKeyExpired
  | _ => none

namespace AccountStreamCache

variable (c : AccountStreamCache)

def markConnected : AccountStreamCache := { c with connected := true }

def markDisconnected : AccountStreamCache := { c with connected := false }

def replaceOrders (orders : List Row) (now : ℚ) : AccountStreamCache :=
  { c with orders := orders, ordersReconciledAt := now, ordersInitialized := true }

def replacePositions (positions : List Row) (now : ℚ) : AccountStreamCache :=
  { c with positions := positions, positionsReconciledAt := now, positionsInitialized := true }

def reconcile (orders positions : List Row) (now : ℚ) : AccountStreamCache :=
  (c.replaceOrders orders now).replacePositions positions now

/-- Called after every write: the next read of the orders must go out. -/
def invalidateOrders : AccountStreamCache :=
  { c with ordersInitialized := false, ordersReconciledAt := 0, lastOrdersRestAt := 0 }

/-- Fresh for ten minutes on a connected stream, else for the ten seconds after a snapshot. -/
def isFresh (kind : AccountReadKind) (now : ℚ) : Prop :=
  let (initialized,reconciledAt) := match kind with
    | .orders => (c.ordersInitialized,c.ordersReconciledAt)
    | .positions => (c.positionsInitialized,c.positionsReconciledAt)
  initialized=true ∧ now-reconciledAt ≤ if c.connected then staleAfterSeconds else restFallbackSeconds

instance (kind : AccountReadKind) (now : ℚ) : Decidable (c.isFresh kind now) :=
  inferInstanceAs (Decidable (_ ∧ _))

def lastRestAt : AccountReadKind → ℚ
  | .orders => c.lastOrdersRestAt
  | .positions => c.lastPositionsRestAt

def restInFlightAt : AccountReadKind → ℚ
  | .orders => c.ordersRestInFlightAt
  | .positions => c.positionsRestInFlightAt

def setRestInFlightAt (at_ : ℚ) : AccountReadKind → AccountStreamCache
  | .orders => { c with ordersRestInFlightAt := at_ }
  | .positions => { c with positionsRestInFlightAt := at_ }

/-- A request that was given up holds the others off for sixty seconds at most. -/
def beginRestFallback (kind : AccountReadKind) (now : ℚ) : RestFallbackState × AccountStreamCache :=
  if 0<c.restInFlightAt kind ∧ now-c.restInFlightAt kind ≤ 60 then (.inFlight,c)
  else if 0<c.lastRestAt kind ∧ now-c.lastRestAt kind<restFallbackSeconds then
    (.throttled,c.setRestInFlightAt 0 kind)
  else (.permit,c.setRestInFlightAt now kind)

def finishRestFallback (now : ℚ) : AccountReadKind → AccountStreamCache
  | .orders => { c with ordersRestInFlightAt := 0, lastOrdersRestAt := now }
  | .positions => { c with positionsRestInFlightAt := 0, lastPositionsRestAt := now }

def applyEvent (e : UserStreamEvent) (now : ℚ) : AccountStreamCache :=
  match e with
  | .order u => { c with orders := u.apply c.orders, lastEventAt := now }
  | .position us =>
    { c with positions := us.foldl (fun rows u => u.apply rows) c.positions, lastEventAt := now }
  | .listenKeyExpired => { c with lastEventAt := now }

/-- `apply_event`. -/
def applyMessage (event : Value) (now : ℚ) : AccountStreamCache :=
  (UserStreamEvent.parse event).elim c fun e => c.applyEvent e now

end AccountStreamCache

/-- Who asked for a snapshot: the worker, for orders and positions at once, or a reader of one kind. -/
inductive Asker
  | worker
  | reader (kind : AccountReadKind)
deriving DecidableEq

def Asker.wantsOrders : Asker → Prop
  | .worker => True
  | .reader kind => kind=.orders

instance : DecidablePred Asker.wantsOrders
  | .worker => .isTrue trivial
  | .reader kind => inferInstanceAs (Decidable (kind=.orders))

/-- A snapshot request on its way. -/
structure Asked where
  asker : Asker
  sentAt : ℕ
deriving DecidableEq

/-- The cache and the requests on their way, with a count of what happened, the moment at which the
request of the cached orders was sent, and the moment of the last `invalidate_orders`. -/
structure Account where
  cache : AccountStreamCache := {}
  asked : List Asked := []
  clock : ℕ := 0
  origin : Option ℕ := none
  wroteAt : Option ℕ := none

inductive Event
  | connected
  | disconnected
  | stream (e : UserStreamEvent) (now : ℚ)
  /-- An order was sent to the exchange, and `invalidate_orders` is called. -/
  | wrote
  /-- `reconcile_once` sends its requests. -/
  | reconcile
  /-- A reader finds the cache stale; a permit sends its request. -/
  | fallback (kind : AccountReadKind) (now : ℚ)
  | answered (k : ℕ) (orders positions : List Row) (now : ℚ)
  | failed (k : ℕ) (now : ℚ)
  /-- The future of the request is dropped. -/
  | dropped (k : ℕ)

namespace Account

def ask (a : Account) (asker : Asker) : Account := { a with asked := a.asked++[⟨asker,a.clock⟩] }

/-- A snapshot comes back. -/
def store (a : Account) (r : Asked) (orders positions : List Row) (now : ℚ) : Account :=
  match r.asker with
  | .worker => { a with cache := a.cache.reconcile orders positions now, origin := some r.sentAt }
  | .reader .orders =>
    { a with
      cache := (a.cache.replaceOrders orders now).finishRestFallback now .orders
      origin := some r.sentAt }
  | .reader .positions =>
    { a with cache := (a.cache.replacePositions positions now).finishRestFallback now .positions }

/-- A snapshot does not come; a reader's request is over. -/
def giveUp (a : Account) (r : Asked) (now : ℚ) : Account :=
  match r.asker with
  | .worker => a
  | .reader kind => { a with cache := a.cache.finishRestFallback now kind }

def occur (a : Account) : Event → Account
  | .connected => { a with cache := a.cache.markConnected }
  | .disconnected => { a with cache := a.cache.markDisconnected }
  | .stream e now => { a with cache := a.cache.applyEvent e now }
  | .wrote => { a with cache := a.cache.invalidateOrders, wroteAt := some a.clock }
  | .reconcile => a.ask .worker
  | .fallback kind now =>
    match a.cache.beginRestFallback kind now with
    | (.permit,cache) => { a with cache := cache }.ask (.reader kind)
    | (_,cache) => { a with cache := cache }
  | .answered k orders positions now =>
    match a.asked[k]? with
    | some r => { a with asked := a.asked.eraseIdx k }.store r orders positions now
    | none => a
  | .failed k now =>
    match a.asked[k]? with
    | some r => { a with asked := a.asked.eraseIdx k }.giveUp r now
    | none => a
  | .dropped k => { a with asked := a.asked.eraseIdx k }

def step (a : Account) (e : Event) : Account := { a.occur e with clock := a.clock+1 }

end Account
end TradeGate.AccountStream
