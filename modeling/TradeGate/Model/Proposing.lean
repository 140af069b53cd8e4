import TradeGate.Model.Closing

/-! New threads: from a proposal of the agent or the chat, and from the order panel. -/
namespace TradeGate
open Coop

variable [Host]

/-- The thread of a proposal, once it is sized. -/
def proposedThread (s : Runtime) (symbol : String) (p : Proposal) (takeProfits : List String)
    (source : ThreadSource) (qty : String) : StrategyThread :=
  newThread {
    id := s.freshThreadId
    backend := s.backend
    symbol := symbol
    side := p.direction
    source := source
    timeframe := s.workflow.timeframe
    entry := ⟨p.entry,if p.entry=.limit then p.limitPrice else none⟩
    stopPrice := p.stopPrice
    takeProfits := takeProfits
    qty := qty
    leverage := s.workflow.leverage
    marginMode := s.workflow.marginMode
    now := s.now }

/-- `openThreadFromProposal`: fresh reads, the last gates, and the thread with its intent; the
entry is sent at once unless a human has to approve it. -/
def openThreadFromProposal (symbol : String) (p : Proposal) (takeProfits : List String)
    (staleMark : String) (source : ThreadSource) (forceApproval : Bool) : RT Unit := do
  let rules ← orThrow (← ExecBackend.symbolRules symbol)
  let account ← orThrow (← ExecBackend.account)
  Prog.update .account (·.setAccount account)
  let s ← Prog.read
  let mark := (← marketView symbol s.workflow.timeframe).toOption.getD staleMark
  let s ← Prog.read
  let blockers := s.preflightOpen symbol account none
  if blockers ≠ [] then .fail ("提交前重闸拒绝:" ++ ";".intercalate blockers)
  else do
    let riskPct := Js.value s.workflow.riskPct
    let sizing := computeSizing p account.equity mark rules symbol
      { defaultGates with riskPct := riskPct } none
    let thread := proposedThread s symbol p takeProfits source sizing.qty
    saveThread .propose thread
    let intent ← newIntent thread .agent
      { kind := .open, direction := p.direction, quantity := sizing.qty, entry := p.entry,
        limitPrice := p.limitPrice, stopPrice := p.stopPrice, takeProfitPrice := takeProfits.head?,
        riskPct := Js.text riskPct }
    if ¬sizing.ok then do
      let _ ← updateIntent intent fun i =>
        { i with status := .rejected, error := some ("数量不可用:" ++ sizing.note) }
      saveThread .propose { thread with
        status := .canceled
        closedAt := some s.now
        closeReason := some "数量不可用"
        version := 2
        updatedAt := s.now }
    else if (¬s.workflow.autoApprove ∨ forceApproval) ∧ source ≠ .manual then return
    else executeOpen thread intent

/-- The end of a scan: a proposal passes the gates of the proposal itself, the limits on threads
and the check for orders of unknown fate before it becomes a thread. -/
def applyProposal (symbol : String) (at_ : ℕ) (p : Proposal) (takeProfits : List String)
    (staleMark : String) (gatesPassed : Bool) : RT Unit := do
  let s ← Prog.read
  let blockers := openingBlockers s.openThreads s.workflow symbol
    (s.threadOpensSince (utcDayStart at_) none) s.dailyLossHit
  let unknownOpen := ∃ i ∈ s.newestIntents 50, i.status=.unknown
  if gatesPassed=true ∧ blockers=[] ∧ ¬unknownOpen then
    openThreadFromProposal symbol p takeProfits staleMark .agent false
  else return

/-- What the order panel asks for. -/
structure ManualOrderRequest where
  symbol : String
  side : Direction
  type : EntryType
  price : Option String
  marginUsdt : Option String
  leverage : Option ℚ
  qty : Option String
  tp : Option String
  sl : Option String
  marginMode : Option MarginMode
deriving DecidableEq

/-- A text that is given and not empty. -/
def filledIn (s : Option String) : Option String := s.filter fun x => x ≠ ""

/-- `manualOrder` with action `close`, once the market view is there. -/
def manualClose (symbol : String) (side : Direction) : RT Unit := do
  let s ← Prog.read
  match s.openThreads.find? fun t => t.symbol=symbol with
  | some t =>
    if t.side ≠ side then .fail (symbol ++ " 的线程方向是 " ++ t.side.word ++ ",与请求不符")
    else closeThreadNow t false "手动平仓"
  | none =>
    match s.account.bind fun a => a.positions.find? fun p => p.symbol=symbol with
    | none => .fail (symbol ++ " 没有持仓")
    | some pos =>
      if pos.side ≠ side then .fail (symbol ++ " 持仓方向是 " ++ pos.side.word ++ ",与请求不符")
      else do
        let _ ← ExecBackend.cancelAll symbol
        let s ← Prog.read
        let r ← ExecBackend.closePosition symbol ("tgd-manual-" ++ Js.shortStamp s.now)
        match r.error with
        | some e => .fail e
        | none => pollAccount

/-- The quantity a manual order asks for, rounded down to the step. -/
def manualQty (req : ManualOrderRequest) (leverage ref step : ℚ) : ℚ :=
  let asked := match filledIn req.qty with
    | some q => Js.value q
    | none => ((filledIn req.marginUsdt).map fun m => Js.value m*leverage/ref).getD 0
  ⌊asked/step+1/1000000000⌋*step

/-- The first objection to a manual opening order. -/
def manualRefusal (req : ManualOrderRequest) (ref qty : ℚ) (rules : SymbolRules) (sl : String) :
    Option String :=
  let side : ℚ → ℚ → Prop := fun a b => match req.side with | .long => a<b | .short => b<a
  have : ∀ a b, Decidable (side a b) := fun a b => by
    dsimp only [side]; cases req.side <;> exact inferInstance
  if ¬0<qty then some "数量为 0:请填保证金或数量"
  else if qty*ref<Js.value rules.minNotional then
    some ("名义 " ++ Js.toFixed (qty*ref) 2 ++ " USDT 低于交易所最小 " ++ rules.minNotional)
  else if ¬side (Js.value sl) ref then some "止损价在入场价的错误一侧"
  else if ∃ tp ∈ filledIn req.tp, ¬side ref (Js.value tp) then some "止盈价在入场价的错误一侧"
  else none

/-- `this.account ?? (await this.backend.account())`. -/
def knownAccount : RT AccountView := do
  let s ← Prog.read
  match s.account with
  | some a => return a
  | none => do orThrow (← ExecBackend.account)

/-- The thread of a manual opening order. -/
def manualThread (s : Runtime) (req : ManualOrderRequest) (leverage : ℕ) (qty : String) :
    StrategyThread :=
  newThread {
    id := s.freshThreadId
    backend := s.backend
    symbol := req.symbol
    side := req.side
    source := .manual
    timeframe := s.workflow.timeframe
    entry := ⟨req.type,if req.type=.limit then req.price else none⟩
    stopPrice := req.sl
    takeProfits := (filledIn req.tp).toList
    qty := qty
    leverage := leverage
    marginMode := req.marginMode.getD s.workflow.marginMode
    now := s.now }

/-- The caps and gates of a manual order, and its entry. -/
def submitManual (req : ManualOrderRequest) (leverage : ℤ) (ref qty : ℚ) (rules : SymbolRules)
    (account : AccountView) : RT Unit := do
  let maxNotional := Js.value account.equity*defaultGates.maxNotionalMultiple
  if maxNotional<qty*ref then
    .fail ("名义 " ++ Js.toFixed (qty*ref) 2 ++ " USDT 超过上限(权益 × " ++
      Js.text defaultGates.maxNotionalMultiple ++ " = " ++ Js.toFixed maxNotional 2 ++ ")")
  else do
    let s ← Prog.read
    let blockers := s.preflightOpen req.symbol account none
    if blockers ≠ [] then .fail ("不能开仓:" ++ ";".intercalate blockers)
    else do
      let text := Js.toFixed qty (Js.decimals rules.stepSize)
      let thread := manualThread s req leverage.toNat text
      saveThread .propose thread
      let intent ← newIntent thread .user
        { kind := .open, direction := req.side, quantity := text, entry := req.type,
          limitPrice := if req.type=.limit then req.price else none, stopPrice := req.sl,
          takeProfitPrice := req.tp, riskPct := "0" }
      executeOpen thread intent

/-- `manualOrder` with action `open`, once the market view is there. -/
def manualOpen (req : ManualOrderRequest) (mark : String) : RT Unit := do
  let s ← Prog.read
  let leverage := max 1 ⌊req.leverage.getD s.workflow.leverage+1/2⌋
  if 10<leverage then .fail "杠杆最高 10x"
  else match filledIn req.sl with
  | none => .fail "手动开仓必须带止损"
  | some sl => do
    let ref := Js.value (((filledIn req.price).filter fun _ => req.type=.limit).getD mark)
    let rules ← orThrow (← ExecBackend.symbolRules req.symbol)
    let given := Js.value rules.stepSize
    let step := if given=0 then 1/1000 else given
    let qty := manualQty req leverage ref step
    match manualRefusal req ref qty rules sl with
    | some why => .fail why
    | none => do submitManual req leverage ref qty rules (← knownAccount)

/-- The mark price of the cached market view, or of a fresh one. -/
def knownMark (symbol : String) : RT String := do
  let s ← Prog.read
  match s.markets symbol with
  | some mark => return mark
  | none => do orThrow (← marketView symbol s.workflow.timeframe)

/-- Orders of the panel; refused during a halt. -/
def manualOrder (req : ManualOrderRequest) (close : Bool) : RT Unit := do
  let s ← Prog.read
  if s.halted then .fail "紧急停止中,不接受下单"
  else do
    let mark ← knownMark req.symbol
    Prog.update .propose (·.setMarket req.symbol mark)
    if close then manualClose req.symbol req.side
    else manualOpen req mark

end TradeGate
