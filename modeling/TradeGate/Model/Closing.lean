import TradeGate.Model.Opening

/-! Ending and reducing threads on request: cancelling an entry, closing, halving, adopting a
position of the account. -/
namespace TradeGate
open Coop

variable [Host]

/-- Cancels the entry order, if one was sent. -/
def cancelSentEntry (t : StrategyThread) : RT Bool :=
  match t.entryClientOrderId with
  | some cid => do return (← ExecBackend.cancelOrder t.symbol cid).ok
  | none => return true

def cancelEntry (t : StrategyThread) (reason : String) : RT Unit := do
  let ok ← cancelSentEntry t
  let s ← Prog.read
  if ok then
    saveThread .cancelEntry <| { t with
      status := .canceled
      closedAt := some s.now
      closeReason := some reason }.flag none s.now
  else
    -- the order may still be live: the thread stays under reconciliation
    saveThread .cancelEntry ({ t with closeReason := some reason }.flag (some .cancelUnknown) s.now)
  pollAccount

/-- Whether the close is proven: a positive receipt, or a fresh read without the symbol. -/
def closeProven (t : StrategyThread) (r : CloseReceipt) : RT Bool :=
  if r.proven then return true
  else if r.error.isSome then return false
  else do
    let fresh ← orThrow (← ExecBackend.account)
    Prog.update .account (·.setAccount fresh)
    return decide ¬∃ p ∈ fresh.positions, p.symbol=t.symbol

/-- What the receipt of a close means for the thread and its intent. -/
def settleClose (t : StrategyThread) (intent : DemoIntent) (r : CloseReceipt) (reason : String)
    (proven : Bool) : RT Unit := do
  let s ← Prog.read
  if proven then do
    let _ ← updateIntent intent fun i => { i with status := .filled }
    saveThread .close <| { t with
      status := .closed
      closedAt := some s.now
      closeReason := some reason
      realizedPnl := r.realizedPnl
      exitPrice := r.avgPrice.orElse fun _ => s.markets t.symbol }.flag none s.now
    pollAccount
  else do
    let _ ← updateIntent intent fun i =>
      { i with status := .failed, error := some (r.error.getD "平仓未被证实") }
    saveThread .close (t.flag (some .closeFailed) s.now)

def closeThreadNow (tIn : StrategyThread) (byAgent : Bool) (reason : String) : RT Unit := do
  if tIn.status=.pendingEntry then cancelEntry tIn reason
  else do
    let s ← Prog.read
    let pos := s.account.bind fun a => a.positions.find? fun p => p.symbol=tIn.symbol
    let intent ← newIntent tIn (if byAgent then .agent else .user)
      { kind := .close, direction := tIn.side, quantity := (pos.map PositionView.qty).getD tIn.qty,
        riskPct := "0" }
    let (cid,t) := nextLegCid tIn .x
    saveThread .close t
    let intent ← updateIntent intent fun i => { i with status := .approved, clientOrderId := some cid }
    let _ ← ExecBackend.cancelAll t.symbol
    let r ← ExecBackend.closePosition t.symbol cid
    let proven ← closeProven t r
    settleClose t intent r reason proven

/-- `Math.round(ms / 1000)`. -/
def roundedSeconds (ms : ℕ) : ℕ := (ms+500)/1000

/-- Closing from the panel or the chat; refused while the entry is being sent. -/
def closeThread (threadId reason : String) : RT Unit := do
  let s ← Prog.read
  match s.thread threadId with
  | none => .fail "thread not found"
  | some t =>
    if ¬t.isOpen then .fail ("thread is " ++ t.status.text)
    else if t.status=.pendingEntry ∧ t.entrySubmittingSince.isSome then
      .fail (t.symbol ++ " 入场单正在发送中(已 " ++
        toString (roundedSeconds (s.now-t.entrySubmittingSince.getD 0)) ++
        " 秒,agent_mcp 通道一次约 40 秒),交易所可能已成交;等回执回来再平仓或撤单")
    else closeThreadNow t false reason

/-- Half of a quantity, rounded down to the step of the symbol. -/
def halfQty (qty : String) (rules : SymbolRules) : String :=
  let given := Js.value rules.stepSize
  let step := if given=0 then 1/1000 else given
  Js.toFixed (⌊Js.value qty/2/step⌋*step) (Js.decimals rules.stepSize)

/-- Halves the position the account shows on the symbol. -/
def reduceHalf (t : StrategyThread) : RT Unit := do
  let s ← Prog.read
  match s.account.bind fun a => a.positions.find? fun p => p.symbol=t.symbol with
  | none => return
  | some pos => do
    let rules ← orThrow (← ExecBackend.symbolRules t.symbol)
    let half := halfQty pos.qty rules
    if ¬0<Js.value half then return
    else do
      let intent ← newIntent t .agent
        { kind := .reduce, direction := t.side, quantity := half, riskPct := "0" }
      let (cid,minted) := nextLegCid t .r
      saveThread .reduce minted
      let intent ← updateIntent intent fun i => { i with status := .approved, clientOrderId := some cid }
      let r ← orThrow (← ExecBackend.reducePosition t.symbol half cid)
      let _ ← updateIntent intent fun i => { i with
        status := r.outcome.reduceStatus
        error := r.error }
      let cur ← storedOr t
      let s ← Prog.read
      -- the local quantity follows fills only
      Prog.onlyIf (r.outcome=.filled) <| saveThread .reduce <| bump { cur with
        qty := Js.toFixed (Js.value pos.qty-Js.value half) (Js.decimals rules.stepSize) } s.now
      pollAccount

/-- A conditional order of the account that closes a position at a trigger price. -/
def exchangeLeg (acct : AccountView) (symbol : String) (side : Direction) (takeProfit : Bool) :
    Option OpenOrderView :=
  acct.openOrders.find? fun o => o.symbol=symbol ∧ (o.stopPrice.filter fun p => p ≠ "").isSome ∧
    (if takeProfit then (Js.Pattern.word true "TAKE_PROFIT").test o.type=true
      else (Js.Pattern.word true "STOP").test o.type=true ∧
        (Js.Pattern.word true "TAKE_PROFIT").test o.type=false) ∧
    (Js.Pattern.word true (closingSide side)).test o.side=true

/-- A text that is given and not blank. -/
def given (s : Option String) : Option String :=
  (s.map fun x => String.ofList (Js.trim x.toList)).filter fun x => x ≠ ""

/-- Clears resting conditional orders of the symbol before a new stop is placed. -/
def clearAlgoOrders (symbol : String) : RT Unit := do
  let s ← Prog.read
  Prog.onlyIf (s.backend=.agentMcp) do
    let stale ← orThrow (← ExecBackend.listAlgoOrders symbol)
    (stale.getD []).forM fun cid => do
      let _ ← ExecBackend.cancelAlgoOrder symbol cid
      return

/-- The thread of an adopted position. -/
def adoptedThread (s : Runtime) (symbol : String) (pos : PositionView) (stopPrice : String)
    (tp : Option String) (protection : List String) : StrategyThread :=
  { newThread {
      id := s.freshThreadId
      backend := s.backend
      symbol := symbol
      side := pos.side
      source := .manual
      timeframe := s.workflow.timeframe
      entry := ⟨.market,some pos.entryPrice⟩
      stopPrice := some stopPrice
      takeProfits := tp.toList
      qty := pos.qty
      leverage := if 0<pos.leverage then pos.leverage else s.workflow.leverage
      marginMode := s.workflow.marginMode
      now := s.now } with
    status := .inPosition
    openedAt := some s.now
    filledAvgPrice := some pos.entryPrice
    protectionClientOrderIds := protection }

/-- The stop price on the safe side of the reference price. -/
def stopOnSafeSide (side : Direction) (stopPrice : String) (ref : ℚ) : Prop :=
  0<Js.value stopPrice ∧ match side with
    | .long => Js.value stopPrice < ref
    | .short => ref<Js.value stopPrice

instance (side : Direction) (stopPrice : String) (ref : ℚ) :
    Decidable (stopOnSafeSide side stopPrice ref) := by
  unfold stopOnSafeSide
  cases side <;> exact inferInstance

/-- The price a position is measured against. -/
def PositionView.reference (pos : PositionView) : ℚ :=
  Js.value (if Js.positive pos.markPrice then pos.markPrice else pos.entryPrice)

/-- Stores the adopted thread and places the legs the exchange does not have yet. -/
def takeOver (symbol : String) (pos : PositionView) (stopPrice : String) (tp : Option String)
    (ids : List String) (newStop newTp : Bool) : RT Unit := do
  let s ← Prog.read
  let thread := adoptedThread s symbol pos stopPrice tp ids
  saveThread .adopt thread
  Prog.onlyIf (newStop=true ∨ newTp=true) do
    Prog.onlyIf (newStop=true) <| clearAlgoOrders symbol
    placeProtection thread none
  pollAccount

/-- Hands a position of the account that no thread owns to the agent. -/
def adoptPosition (symbol : String) (stop takeProfit : Option String) : RT Unit := do
  let s ← Prog.read
  if s.halted then .fail "紧急停止中"
  else match s.openThreads.find? fun t => t.symbol=symbol with
  | some t =>
    .fail (symbol ++ " 已经有线程 " ++ t.id ++ "(" ++ t.status.text ++ "),不用接管")
  | none => do
    let acct ← orThrow (← ExecBackend.account)
    Prog.update .account (·.setAccount acct)
    match acct.positions.find? fun p => p.symbol=symbol ∧ Js.value p.qty ≠ 0 with
    | none => .fail (symbol ++ " 交易所上没有持仓")
    | some pos => do
      let exStop := exchangeLeg acct symbol pos.side false
      let exTp := exchangeLeg acct symbol pos.side true
      match (given stop).orElse fun _ => exStop.bind OpenOrderView.stopPrice with
      | none => .fail (symbol ++ " 交易所上没有止损单,接管必须给一个止损价")
      | some stopPrice =>
        if ¬stopOnSafeSide pos.side stopPrice pos.reference then
          .fail ("止损 " ++ stopPrice ++ " 必须在" ++
            (match pos.side with | .long => "标记价下方" | .short => "标记价上方") ++
            "(标记价 " ++ Js.text pos.reference ++ ")")
        else do
          let tp := (given takeProfit).orElse fun _ => exTp.bind OpenOrderView.stopPrice
          let useStop := exStop.filter fun _ => (stop.filter fun p => p ≠ "").isNone
          let useTp := exTp.filter fun _ =>
            tp.isSome ∧ (takeProfit.filter fun p => p ≠ "").isNone
          let ids := ((useStop.toList ++ useTp.toList).map OpenOrderView.clientOrderId).filter
            fun id => id ≠ ""
          takeOver symbol pos stopPrice tp ids useStop.isNone (tp.isSome ∧ useTp.isNone)

end TradeGate
