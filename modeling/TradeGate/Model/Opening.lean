import TradeGate.Model.Reconcile

/-! `executeOpen`: the entry of an approved intent, from the persisted client order id to the
receipt and its protection. -/
namespace TradeGate
open Coop

variable [Host]

/-- The entry is not sent: the intent is rejected and the thread canceled. -/
def abortOpen (t : StrategyThread) (intent : DemoIntent) (why : String) : RT Unit := do
  let _ ← updateIntent intent fun i => { i with status := .rejected, error := some why }
  let cur ← storedOr t
  let s ← Prog.read
  saveThread .open { cur with
    status := .canceled
    entryClientOrderId := none
    closedAt := some s.now
    closeReason := some why
    version := t.version+2
    updatedAt := s.now }

/-- The approved quantity against fresh caps; it is never resized. -/
def sizingRefusal (t : StrategyThread) (intent : DemoIntent) (fresh : AccountView) :
    RT (Option String) :=
  if Js.positive intent.riskPct then do
    match ← openingData t.symbol t.timeframe with
    | .error _ => return some "发送前硬闸数据不可用"
    | .ok (mark,rules) => do
      Prog.update .open (·.setMarket t.symbol mark)
      let s ← Prog.read
      let checked := computeSizing ⟨t.side,t.entry.type,t.entry.price,t.stopPrice⟩ fresh.equity mark
        rules t.symbol
        { defaultGates with riskPct := min (Js.value intent.riskPct) (Js.value s.workflow.riskPct) }
        (some t.qty)
      return if checked.ok then none else some ("发送前数量硬闸:" ++ checked.note)
  else return none

/-- Leverage and margin mode, and last the halt flag. -/
def armRefusal (t : StrategyThread) : RT (Option String) := do
  let lev ← ExecBackend.setLeverage t.symbol t.leverage
  if ¬lev.ok then return some ("设杠杆失败:" ++ lev.error.getD "null")
  else do
    let mt ← ExecBackend.setMarginType t.symbol t.marginMode
    if ¬mt.ok then return some ("设保证金模式失败:" ++ mt.error.getD "null")
    else do
      let s ← Prog.read
      return if s.halted then some "发送前发现紧急停止" else none

/-- Everything that can stop the entry before it is sent. -/
def openingRefusal (t : StrategyThread) (intent : DemoIntent) : RT (Option String) := do
  let fresh ← orThrow (← ExecBackend.account)
  Prog.update .account (·.setAccount fresh)
  let s ← Prog.read
  let blockers := s.preflightOpen t.symbol fresh (some t.id)
  if blockers ≠ [] then return some ("发送前重闸拒绝:" ++ ";".intercalate blockers)
  else do
    match ← sizingRefusal t intent fresh with
    | some why => return some why
    | none => armRefusal t

/-- A leg of the combined entry as a receipt. -/
def legReceipt (leg : AlgoLegReceipt) : OrderReceipt :=
  { outcome := match leg.outcome with
      | .skipped | .filled | .failed => .failed
      | .submitted => .submitted
      | .unknown => .unknown
    avgPrice := none
    error := leg.error.orElse fun _ => match leg.outcome with
      | .filled => some "保护腿已触发,不再是活动止损"
      | .skipped => some "保护腿未发送"
      | _ => none }

/-- The ids of the legs that go out with the entry, and the thread that records them. -/
structure MintedLegs where
  stop : String
  tp : Option (String × String)
  thread : StrategyThread

def mintLegs (t : StrategyThread) (takeProfits : List String) : MintedLegs :=
  let (stopId,next) := nextLegCid t .s
  match takeProfits.head?.filter fun p => p ≠ "" with
  | none => ⟨stopId,none,{ next with protectionClientOrderIds := [stopId] }⟩
  | some price =>
    let (tpId,next) := nextLegCid next .t
    ⟨stopId,some (price,tpId),{ next with protectionClientOrderIds := [stopId,tpId] }⟩

/-- The entry order, with its protection legs in the same run where the backend can. -/
def sendEntry (t minted : StrategyThread) (cid : String) : RT (OrderReceipt × Option PlacedLegs) := do
  let s ← Prog.read
  let req : EntryRequest := ⟨t.symbol,t.side,t.qty,t.entry.type,t.entry.price,cid⟩
  match t.stopPrice.filter fun p => p ≠ "" ∧ s.backend=.agentMcp ∧ t.entry.type=.market with
  | none => return (← ExecBackend.placeEntry req,none)
  | some stopPrice => do
    let legs := mintLegs ((s.thread t.id).getD minted) t.takeProfits
    -- all ids survive a crash during the combined call
    saveThread .open legs.thread
    let combined ← ExecBackend.openWithProtection
      ⟨{ req with entry := .market },stopPrice,legs.stop,legs.tp⟩
    return (combined.entry,some
      ⟨(legs.stop,legReceipt combined.stop),legs.tp.map fun x => (x.2,legReceipt combined.tp)⟩)

/-- The outcome once an unknown receipt was looked up by its client order id. -/
def confirmOutcome (t : StrategyThread) (cid : String) (outcome : OrderOutcome) : RT OrderOutcome :=
  if outcome=.unknown then do
    sleep 2000
    match ← ExecBackend.getOrder t.symbol cid with
    | .ok (some found) =>
      return if found.status=.filled then .filled else if found.status.dead then .failed else .submitted
    | _ => return .unknown
  else return outcome

/-- What the receipt of the entry means for the thread and its intent. -/
def settleEntry (t cur : StrategyThread) (intent : DemoIntent) (entry : OrderReceipt)
    (placed : Option PlacedLegs) (outcome : OrderOutcome) : RT Unit := do
  let s ← Prog.read
  match outcome with
  | .unknown => do
    let _ ← updateIntent intent fun i =>
      { i with status := .unknown, error := some "入场单状态不明,巡检继续按 clientOrderId 核对" }
    saveThread .open (cur.flag (some .orderUnknown) s.now)
  | .failed => do
    let _ ← updateIntent intent fun i =>
      { i with status := .failed, error := some (entry.error.getD "入场失败") }
    saveThread .open <| bump { cur with
      status := .canceled
      closedAt := some s.now
      closeReason := some ("入场失败:" ++ entry.error.getD "null") } s.now
  | .filled => do
    let _ ← updateIntent intent fun i => { i with status := .filled }
    let next := bump { cur with
      status := .inPosition
      openedAt := some s.now
      filledAvgPrice := entry.avgPrice.orElse fun _ => s.markets t.symbol } s.now
    saveThread .open next
    placeProtection next placed
    pollAccount
  | .submitted => do
    let _ ← updateIntent intent fun i => { i with status := .submitted }
    saveThread .open (bump cur s.now)
    pollAccount

/-- The call returned, whatever it said: the submit phase is over. -/
def StrategyThread.submitted (c : StrategyThread) (now : ℕ) : StrategyThread :=
  bump { c with entrySubmittingSince := none, entrySubmittedAt := some now } now

/-- Sends the entry and settles its receipt. -/
def submitEntry (t minted : StrategyThread) (cid : String) (intent : DemoIntent) : RT Unit := do
  let (entry,placed) ← sendEntry t minted cid
  let c ← storedOr t
  let s ← Prog.read
  saveThread .open (c.submitted s.now)
  let cur ← storedOr t
  let outcome ← confirmOutcome t cid entry.outcome
  settleEntry t cur intent entry placed outcome

/-- The thread while its entry is being sent. -/
def StrategyThread.submitting (minted : StrategyThread) (cid : String) (version now : ℕ) :
    StrategyThread :=
  { minted with
    entryClientOrderId := some cid
    entrySubmittingSince := some now
    entrySubmittedAt := none
    version := version
    updatedAt := now }

def executeOpen (threadIn : StrategyThread) (intent : DemoIntent) : RT Unit := do
  let t ← storedOr threadIn
  if t.status ≠ .pendingEntry ∨ t.entryClientOrderId.isSome then
    .fail ("thread " ++ t.id ++ " is " ++ t.status.text ++
      (if t.entryClientOrderId.isSome then " (entry already sent)" else ""))
  else do
    let (cid,minted) := nextLegCid t .e
    let s ← Prog.read
    -- the id is stored before the network call, so that an unknown outcome can be reconciled
    saveThread .open (minted.submitting cid (t.version+1) s.now)
    let intent ← updateIntent intent fun i => { i with status := .approved, clientOrderId := some cid }
    match ← openingRefusal t intent with
    | some why => abortOpen t intent why
    | none => submitEntry t minted cid intent

end TradeGate
