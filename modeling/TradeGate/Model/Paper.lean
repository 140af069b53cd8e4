import TradeGate.Keyed.Table
import TradeGate.Machine.Run
import TradeGate.Model.Types

/-! The paper backend: an account of one wallet, one position a symbol, and a list of open orders.
Quantities and prices travel as decimal texts and are computed with as rationals.  The tape and the
list of ended orders are not part of the source: they tell what fills, closes and triggers did and in
which order orders left the book, for the statements about them. -/
namespace TradeGate

def feeRate : ℚ := 4/10000

/-- A position with no more units left than this counts as closed. -/
def dust : ℚ := 1/1000000000000

structure PaperPosition where
  symbol : String
  side : Direction
  qty : ℚ
  entry : ℚ
  leverage : ℕ
deriving DecidableEq

inductive PaperOrderType | limit | stopMarket | takeProfitMarket
deriving DecidableEq

def PaperOrderType.text : PaperOrderType → String
  | limit => "LIMIT"
  | stopMarket => "STOP_MARKET"
  | takeProfitMarket => "TAKE_PROFIT_MARKET"

/-- An open order; `positionSide` is the position it belongs to. -/
structure PaperOrder where
  symbol : String
  positionSide : Direction
  clientOrderId : String
  type : PaperOrderType
  side : String
  qty : String
  price : Option String
  stopPrice : Option String
  reduceOnly : Bool
deriving DecidableEq

/-- Units that changed hands for an order; `bought` is the direction of the trade. -/
structure PaperTrade where
  order : String
  entry : Bool
  symbol : String
  bought : Direction
  qty : ℚ
  price : ℚ
deriving DecidableEq

inductive PaperDeal
  | traded (t : PaperTrade)
  | opened (symbol : String) (side : Direction)
  | emptied (symbol : String)
  | placed (o : PaperOrder)
  | triggered (o : PaperOrder) (mark : ℚ) (side : Direction)
deriving DecidableEq

structure PaperBackend where
  wallet : ℚ
  positions : Keyed.Table PaperPosition.symbol
  orders : List PaperOrder
  closed : Keyed.Map String OrderStatusView
  marks : Keyed.Map String String
  leverages : Keyed.Map String ℕ
  tape : List PaperDeal
  ended : List String

/-- What a unit held on a side gains while the price goes from `a` to `b`. -/
def Direction.gain (d : Direction) (a b : ℚ) : ℚ := if d=.long then b-a else a-b

/-- Whether a limit entry at `price` can trade at the mark. -/
def Direction.crosses (d : Direction) (mark price : ℚ) : Prop :=
  if d=.long then mark ≤ price else price ≤ mark

instance (d : Direction) (mark price : ℚ) : Decidable (d.crosses mark price) :=
  inferInstanceAs (Decidable (if d=.long then mark ≤ price else price ≤ mark))

def Direction.orderSide : Direction → String
  | .long => "BUY"
  | .short => "SELL"

/-- Whether a resting limit entry trades at the mark. -/
def PaperOrder.reached (o : PaperOrder) (mark : ℚ) : Prop :=
  o.positionSide.crosses mark (Js.value (o.price.getD "0"))

instance (o : PaperOrder) (mark : ℚ) : Decidable (o.reached mark) :=
  inferInstanceAs (Decidable (Direction.crosses o.positionSide mark _))

/-- Whether a protective order goes off for a position on the side. -/
def PaperOrder.hit (o : PaperOrder) (side : Direction) (mark : ℚ) : Prop :=
  ∃ trig ∈ Js.number (o.stopPrice.getD "0"),
    (if o.type=.stopMarket then side else side.opposite).crosses mark trig

instance (o : PaperOrder) (side : Direction) (mark : ℚ) : Decidable (o.hit side mark) :=
  inferInstanceAs (Decidable (∃ trig ∈ Js.number (o.stopPrice.getD "0"),
    (if o.type=.stopMarket then side else side.opposite).crosses mark trig))

namespace PaperBackend

/-- A new simulator without a stored snapshot. -/
def fresh (startingEquity : ℚ) : PaperBackend :=
  { wallet := startingEquity
    positions := .empty
    orders := []
    closed := .empty
    marks := .empty
    leverages := .empty
    tape := []
    ended := [] }

def setMark (b : PaperBackend) (symbol mark : String) : PaperBackend :=
  { b with marks := b.marks.set symbol mark }

def mark (b : PaperBackend) (symbol : String) : ℚ := Js.value ((b.marks.get symbol).getD "0")

theorem mark_setMark (b : PaperBackend) (symbol mark s : String) :
    (b.setMark symbol mark).mark s=if symbol=s then Js.value mark else b.mark s := by
  unfold PaperBackend.mark setMark
  rw [Keyed.Map.get_set]
  split <;> rfl

def setLeverage (b : PaperBackend) (symbol : String) (leverage : ℕ) : PaperBackend :=
  { b with leverages := b.leverages.set symbol leverage }

def position (b : PaperBackend) (symbol : String) : Option PaperPosition :=
  b.positions.lookup symbol

/-- Profit of a position at the current mark; without a mark it counts at its entry. -/
def unrealized (b : PaperBackend) (p : PaperPosition) : ℚ :=
  let m := if b.mark p.symbol=0 then p.entry else b.mark p.symbol
  p.side.gain p.entry m*p.qty

def equity (b : PaperBackend) : ℚ := b.wallet+b.positions.total b.unrealized

/-- The ids of ended orders when an order under the id has ended last. -/
def endedLast (ids : List String) (id : String) : List String := ids.erase id ++ [id]

/-- Notes terminal states of orders that leave the book. -/
def finish (b : PaperBackend) (status : OrderStatusView) (os : List PaperOrder) : PaperBackend :=
  { b with
    closed := os.foldl (fun c o => c.set o.clientOrderId status) b.closed
    ended := os.foldl (fun ids o => endedLast ids o.clientOrderId) b.ended }

/-- Notes another terminal state of an order that has left the book. -/
def amend (b : PaperBackend) (status : OrderStatusView) (o : PaperOrder) : PaperBackend :=
  { b with closed := b.closed.set o.clientOrderId status }

def canceledView : OrderStatusView := ⟨.canceled,none,"0"⟩

def record (b : PaperBackend) (d : PaperDeal) : PaperBackend := { b with tape := b.tape ++ [d] }

/-- Closes `qty` units of the position, or all of it; a position that is all closed takes its
protective orders with it.  `order` and `entry` only name the trade on the tape. -/
def closeAt (b : PaperBackend) (order : String) (entry : Bool) (symbol : String) (price : ℚ)
    (qty : Option ℚ) : ℚ × PaperBackend :=
  match b.position symbol with
  | none => (0,b)
  | some p =>
    let q := min p.qty (qty.getD p.qty)
    let pnl := p.side.gain p.entry price*q-price*q*feeRate
    let b := record { b with wallet := b.wallet+pnl }
      (.traded ⟨order,entry,symbol,p.side.opposite,q,price⟩)
    if p.qty-dust ≤ q then
      let gone := b.orders.filter fun o => o.symbol=symbol ∧ o.reduceOnly
      let b := { b with
        positions := b.positions.erase symbol
        orders := b.orders.filter fun o => ¬(o.symbol=symbol ∧ o.reduceOnly) }
      (pnl,(b.finish canceledView gone).record (.emptied symbol))
    else
      let rest := { p with qty := p.qty-q }
      (pnl,{ b with positions := b.positions.upsert rest })

/-- A fill on the other side of the position reduces it. -/
def fill (b : PaperBackend) (order symbol : String) (side : Direction) (qty price : ℚ)
    (leverage : ℕ) : PaperBackend :=
  let existing := b.position symbol
  let b := { b with wallet := b.wallet-price*qty*feeRate }
  let trade := PaperDeal.traded ⟨order,true,symbol,side,qty,price⟩
  match existing with
  | none =>
    let p := ⟨symbol,side,qty,price,leverage⟩
    (record { b with positions := b.positions.upsert p } (.opened symbol side)).record trade
  | some p =>
    if p.side=side then
      let p := { p with entry := (p.entry*p.qty+price*qty)/(p.qty+qty), qty := p.qty+qty }
      record { b with positions := b.positions.upsert p } trade
    else (b.closeAt order true symbol price (some qty)).2

def leverageOf (b : PaperBackend) (symbol : String) : ℕ := (b.leverages.get symbol).getD 3

/-- A limit entry that is not reached joins the open orders. -/
def rest (b : PaperBackend) (req : EntryRequest) : PaperBackend :=
  { b with orders := b.orders ++
    [⟨req.symbol,req.direction,req.clientOrderId,.limit,req.direction.orderSide,req.qty,
      req.limitPrice,none,false⟩] }

def placeEntry (b : PaperBackend) (req : EntryRequest) : OrderReceipt × PaperBackend :=
  let m := b.mark req.symbol
  if ¬0 < m then (⟨.failed,none,some "paper: no mark price yet"⟩,b)
  else
    let filled := b.fill req.clientOrderId req.symbol req.direction (Js.value req.qty) m
      (b.leverageOf req.symbol)
    if req.entry=.limit then
      let price := Js.value (req.limitPrice.getD "0")
      if ¬0<price then (⟨.failed,none,some "paper: limit price required"⟩,b)
      else if req.direction.crosses m price then (⟨.filled,some (Js.text m),none⟩,filled)
      else (⟨.submitted,none,none⟩,b.rest req)
    else (⟨.filled,some (Js.text m),none⟩,filled)

/-- Whether an entry fills as soon as it is placed. -/
def fillsAtOnce (b : PaperBackend) (req : EntryRequest) : Prop :=
  0<b.mark req.symbol ∧ (req.entry=.limit → 0<Js.value (req.limitPrice.getD "0") ∧
    req.direction.crosses (b.mark req.symbol) (Js.value (req.limitPrice.getD "0")))

instance (b : PaperBackend) (req : EntryRequest) : Decidable (b.fillsAtOnce req) :=
  inferInstanceAs (Decidable (_ ∧ (_ → _ ∧ Direction.crosses _ _ _)))

theorem placeEntry_cases (b : PaperBackend) (req : EntryRequest) :
    ((b.placeEntry req).1.outcome=.failed ∧ (b.placeEntry req).2=b) ∨
    (b.fillsAtOnce req ∧ (b.placeEntry req).1.outcome=.filled ∧
      (b.placeEntry req).2=b.fill req.clientOrderId req.symbol req.direction (Js.value req.qty)
        (b.mark req.symbol) (b.leverageOf req.symbol)) ∨
    (¬b.fillsAtOnce req ∧ (b.placeEntry req).1.outcome=.submitted ∧
      (b.placeEntry req).2=b.rest req) := by
  unfold placeEntry fillsAtOnce
  by_cases hm : 0<b.mark req.symbol
  · by_cases hl : req.entry=.limit
    · by_cases hp : 0<Js.value (req.limitPrice.getD "0")
      · by_cases hc : req.direction.crosses (b.mark req.symbol) (Js.value (req.limitPrice.getD "0"))
        · simp [hm,hl,hp,hc]
        · simp [hm,hl,hp,hc]
      · simp [hm,hl,hp]
    · simp [hm,hl]
  · simp [hm]


def protective (b : PaperBackend) (symbol : String) (position : Direction) (price id : String)
    (type : PaperOrderType) : OrderReceipt × PaperBackend :=
  let o : PaperOrder := ⟨symbol,position,id,type,position.opposite.orderSide,"0",none,some price,true⟩
  (⟨.submitted,none,none⟩,record { b with orders := b.orders ++ [o] } (.placed o))

def placeStop (b : PaperBackend) (symbol : String) (position : Direction) (stopPrice id : String) :
    OrderReceipt × PaperBackend := b.protective symbol position stopPrice id .stopMarket

def placeTakeProfit (b : PaperBackend) (symbol : String) (position : Direction) (tp id : String) :
    OrderReceipt × PaperBackend := b.protective symbol position tp id .takeProfitMarket

def closePosition (b : PaperBackend) (symbol id : String) : CloseReceipt × PaperBackend :=
  match b.position symbol with
  | none => (⟨false,none,none,none⟩,b)
  | some _ =>
    let price := b.mark symbol
    let r := b.closeAt id false symbol price none
    (⟨true,some (Js.toFixed r.1 2),some (Js.text price),none⟩,r.2)

def reducePosition (b : PaperBackend) (symbol qty id : String) : OrderReceipt × PaperBackend :=
  match b.position symbol with
  | none => (⟨.failed,none,some "paper: no position"⟩,b)
  | some _ =>
    let price := b.mark symbol
    (⟨.filled,some (Js.text price),none⟩,(b.closeAt id false symbol price (some (Js.value qty))).2)

def cancelAll (b : PaperBackend) (symbol : String) : Ack × PaperBackend :=
  (⟨true,none⟩,finish { b with orders := b.orders.filter fun o => o.symbol ≠ symbol } canceledView
    (b.orders.filter fun o => o.symbol=symbol))

def cancelOrder (b : PaperBackend) (symbol cid : String) : Ack × PaperBackend :=
  match b.orders.find? fun o => o.symbol=symbol ∧ o.clientOrderId=cid with
  | none => (⟨false,some "paper: order not found"⟩,b)
  | some o => (⟨true,none⟩,finish { b with orders := b.orders.erase o } canceledView [o])

def getOrder (b : PaperBackend) (cid : String) : Option OrderStatusView :=
  if ∃ o ∈ b.orders, o.clientOrderId=cid then some ⟨.new,none,"0"⟩ else b.closed.get cid

/-- Fills the resting limit entries that the mark has reached, in order. -/
def fillResting (symbol : String) : List PaperOrder → PaperBackend → List PaperEvent × PaperBackend
  | [], b => ([],b)
  | o::os, b =>
    if o.reached (b.mark symbol) then
      let price := Js.value (o.price.getD "0")
      let b := b.fill o.clientOrderId symbol o.positionSide (Js.value o.qty) price
        (b.leverageOf symbol)
      let b := finish { b with orders := b.orders.erase o } ⟨.filled,some (Js.text price),o.qty⟩ [o]
      let r := fillResting symbol os b
      (⟨.entryFilled,symbol,Js.text price,none⟩::r.1,r.2)
    else fillResting symbol os b

def resting (b : PaperBackend) (symbol : String) : List PaperOrder :=
  b.orders.filter fun o => o.symbol=symbol ∧ o.type=.limit

/-- The first protective order of the symbol that the mark has hit closes the position. -/
def trigger (b : PaperBackend) (symbol : String) : List PaperEvent × PaperBackend :=
  match b.position symbol with
  | none => ([],b)
  | some p =>
    match b.orders.find? fun o => o.symbol=symbol ∧ o.reduceOnly ∧ o.hit p.side (b.mark symbol) with
    | none => ([],b)
    | some o =>
      let trig := Js.value (o.stopPrice.getD "0")
      let r := (b.record (.triggered o (b.mark symbol) p.side)).closeAt o.clientOrderId false symbol
        trig none
      ([⟨if o.type=.stopMarket then .slHit else .tpHit,symbol,Js.text trig,some (Js.toFixed r.1 2)⟩],
        r.2.amend ⟨.filled,some (Js.text trig),Js.text p.qty⟩ o)

/-- A fresh mark: limit entries first, then at most one protective order. -/
def tick (b : PaperBackend) (symbol mark : String) : List PaperEvent × PaperBackend :=
  let b := b.setMark symbol mark
  let entries := fillResting symbol (b.resting symbol) b
  let hits := entries.2.trigger symbol
  (entries.1 ++ hits.1,hits.2)

/-- `account()`, with the time of the reading and the texts of open orders left out. -/
def account (b : PaperBackend) : AccountView :=
  { backend := .paper
    equity := Js.toFixed b.equity 2
    positions := b.positions.rows.map fun p =>
      ⟨p.symbol,p.side,Js.text p.qty,Js.text p.entry,
        Js.text (if b.mark p.symbol=0 then p.entry else b.mark p.symbol),p.leverage⟩
    openOrders := b.orders.map fun o =>
      ⟨o.symbol,o.clientOrderId,o.type.text,o.side,o.stopPrice,o.reduceOnly⟩ }

end PaperBackend

/-- The calls that change the account.  Quantities and marks are positive numbers: the runtime sends
no other quantity, and a market quotes no other mark. -/
inductive PaperCall
  | setMark (symbol mark : String) (quoted : Js.positive mark)
  | setLeverage (symbol : String) (leverage : ℕ)
  | placeEntry (req : EntryRequest) (units : Js.positive req.qty)
  | placeStop (symbol : String) (position : Direction) (stopPrice id : String)
  | placeTakeProfit (symbol : String) (position : Direction) (tp id : String)
  | closePosition (symbol id : String)
  | reducePosition (symbol qty id : String) (units : Js.positive qty)
  | cancelAll (symbol : String)
  | cancelOrder (symbol cid : String)
  | tick (symbol mark : String) (quoted : Js.positive mark)

namespace PaperBackend

/-- The account after a call. -/
def perform (b : PaperBackend) : PaperCall → PaperBackend
  | .setMark symbol mark _ => b.setMark symbol mark
  | .setLeverage symbol leverage => b.setLeverage symbol leverage
  | .placeEntry req _ => (b.placeEntry req).2
  | .placeStop symbol position stopPrice id => (b.placeStop symbol position stopPrice id).2
  | .placeTakeProfit symbol position tp id => (b.placeTakeProfit symbol position tp id).2
  | .closePosition symbol id => (b.closePosition symbol id).2
  | .reducePosition symbol qty id _ => (b.reducePosition symbol qty id).2
  | .cancelAll symbol => (b.cancelAll symbol).2
  | .cancelOrder symbol cid => (b.cancelOrder symbol cid).2
  | .tick symbol mark _ => (b.tick symbol mark).2

/-- The account after the calls. -/
abbrev run : PaperBackend → List PaperCall → PaperBackend := Machine.run perform

/-- A condition on each call and the account it meets. -/
abbrev Throughout (P : PaperBackend → PaperCall → Prop) : PaperBackend → List PaperCall → Prop :=
  Machine.Throughout perform P

end PaperBackend
end TradeGate

/-! The paper backend with its persistence hook: the whole state goes to one snapshot at the end of
every method that changes it, and the constructor reads the last one back.  A snapshot stands for the
JSON text it is written as. -/
namespace TradeGate

def paperSnapshotVersion : ℕ := 1

/-- How many terminal orders travel in a snapshot. -/
def closedKeep : ℕ := 500

/-- Maps travel as their entries, oldest first. -/
structure PaperSnapshot where
  version : ℕ
  wallet : ℚ
  positions : List PaperPosition
  orders : List PaperOrder
  closed : List (String × OrderStatusView)
  marks : List (String × String)
  leverages : List (String × ℕ)
deriving DecidableEq

namespace PaperBackend

def snapshot (b : PaperBackend) : PaperSnapshot :=
  let closed := b.closed.rows
  { version := paperSnapshotVersion
    wallet := b.wallet
    positions := b.positions.rows
    orders := b.orders
    closed := if closedKeep<closed.length then closed.drop (closed.length-closedKeep) else closed
    marks := b.marks.rows
    leverages := b.leverages.rows }

/-- Reads the last snapshot, if there is one of this version.  What it lists counts as ended in that
order. -/
def restore (b : PaperBackend) (raw : Option PaperSnapshot) : PaperBackend :=
  match raw with
  | none => b
  | some snap =>
    if snap.version ≠ paperSnapshotVersion then b
    else { b with
      wallet := snap.wallet
      positions := .ofRows snap.positions
      orders := snap.orders
      closed := .ofRows snap.closed
      marks := .ofRows snap.marks
      leverages := .ofRows snap.leverages
      ended := snap.closed.map Prod.fst }

def available (b : PaperBackend) : String := Js.toFixed b.wallet 2

def unrealizedPnl (b : PaperBackend) : String := Js.toFixed (b.positions.total b.unrealized) 2

def markPrice (b : PaperBackend) (symbol : String) : String := (b.marks.get symbol).getD "0"

end PaperBackend

/-- What is asked of the backend: a call, or a query. -/
inductive PaperRequest
  | call (c : PaperCall)
  | markPrice (symbol : String)
  | account
  | getOrder (symbol cid : String)

inductive PaperReply
  | silent
  | ack (a : Ack)
  | receipt (r : OrderReceipt)
  | close (r : CloseReceipt)
  | events (es : List PaperEvent)
  | price (p : String)
  | account (a : AccountView) (available unrealizedPnl : String)
  | order (o : Option OrderStatusView)
deriving DecidableEq

/-- A simulator and the text its persistence hook keeps. -/
structure PaperProcess where
  sim : PaperBackend
  blob : Option PaperSnapshot

namespace PaperProcess

/-- The constructor. -/
def start (startingEquity : ℚ) (blob : Option PaperSnapshot) : PaperProcess :=
  ⟨(PaperBackend.fresh startingEquity).restore blob,blob⟩

/-- The state goes to the hook. -/
def save (sim : PaperBackend) : PaperProcess := ⟨sim,some sim.snapshot⟩

/-- The methods as they save. -/
def perform (p : PaperProcess) : PaperCall → PaperReply × PaperProcess
  | .setMark symbol mark _ => (.silent,save (p.sim.setMark symbol mark))
  | .setLeverage symbol leverage => (.ack ⟨true,none⟩,save (p.sim.setLeverage symbol leverage))
  | .placeEntry req _ =>
    let r := p.sim.placeEntry req
    (.receipt r.1,if r.1.outcome=.failed then p else save r.2)
  | .placeStop symbol position stopPrice id =>
    let r := p.sim.placeStop symbol position stopPrice id
    (.receipt r.1,save r.2)
  | .placeTakeProfit symbol position tp id =>
    let r := p.sim.placeTakeProfit symbol position tp id
    (.receipt r.1,save r.2)
  | .closePosition symbol id =>
    let r := p.sim.closePosition symbol id
    (.close r.1,if (p.sim.position symbol).isNone then p else save r.2)
  | .reducePosition symbol qty id _ =>
    let r := p.sim.reducePosition symbol qty id
    (.receipt r.1,if (p.sim.position symbol).isNone then p else save r.2)
  | .cancelAll symbol =>
    let r := p.sim.cancelAll symbol
    (.ack r.1,save r.2)
  | .cancelOrder symbol cid =>
    let r := p.sim.cancelOrder symbol cid
    (.ack r.1,if r.1.ok=false then p else save r.2)
  | .tick symbol mark _ =>
    let r := p.sim.tick symbol mark
    (.events r.1,save r.2)

def answer (p : PaperProcess) : PaperRequest → PaperReply × PaperProcess
  | .call c => p.perform c
  | .markPrice symbol => (.price (p.sim.markPrice symbol),p)
  | .account => (.account p.sim.account p.sim.available p.sim.unrealizedPnl,p)
  | .getOrder _ cid => (.order (p.sim.getOrder cid),p)

/-- The answers to one request after the other. -/
def answers (p : PaperProcess) : List PaperRequest → List PaperReply
  | [] => []
  | r::rs => (p.answer r).1::(p.answer r).2.answers rs

/-- What befalls a process: a request, or a restart of the gateway. -/
def live (startingEquity : ℚ) (p : PaperProcess) : Option PaperRequest → PaperProcess
  | some r => (p.answer r).2
  | none => start startingEquity p.blob

end PaperProcess
end TradeGate
