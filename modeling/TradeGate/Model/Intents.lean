import TradeGate.Js.Arith
import TradeGate.Model.Runtime

/-! Gates between a proposal and its entry order: the last-moment blockers and the check of an
approved quantity against fresh caps. -/
namespace TradeGate

/-- `Math.floor(now / 86_400_000) * 86_400_000`. -/
def utcDayStart (now : ℕ) : ℕ := now/86400000*86400000

/-- Gates that depend on the set of threads and the workflow. -/
def openingBlockers (threads : List StrategyThread) (workflow : Workflow) (symbol : String)
    (opensToday : ℕ) (dailyLossHit : Prop) [Decidable dailyLossHit] : List String :=
  let open_ := threads.filter fun t => t.isOpen
  (if ∃ t ∈ open_, t.symbol=symbol then [symbol ++ " 已有线程"] else []) ++
  (if workflow.maxOpenThreads ≤ open_.length then
    ["同时线程数已到上限 " ++ toString workflow.maxOpenThreads] else []) ++
  (if workflow.maxOpensPerDay ≤ opensToday then
    ["今日开仓已到上限 " ++ toString workflow.maxOpensPerDay] else []) ++
  (if dailyLossHit then ["今日亏损已触及 " ++ workflow.dailyLossStopPct ++ "% 日亏停"] else [])

namespace Runtime

/-- Threads created since the given time whose entry was sent, counted toward the daily cap. -/
def threadOpensSince (s : Runtime) (sinceAt : ℕ) (excludeId : Option String) : ℕ :=
  (s.threads.rows.filter fun t => sinceAt ≤ t.createdAt ∧ some t.id ≠ excludeId ∧ t.status ≠ .canceled ∧
    t.source ≠ .manual ∧ t.entryClientOrderId.isSome).length

def dailyLossPct (s : Runtime) : Js.Num :=
  match s.account with
  | none => .fin 0
  | some a =>
    if a.backend ≠ s.backend then .fin 0
    else
      let start := Js.Num.ofText (((s.dayStartEquity s.backend).map Prod.snd).getD a.equity)
      if (Js.Num.fin 0).lt start then ((start.sub (.ofText a.equity)).div start).mul (.fin 100) else .fin 0

def dailyLossHit (s : Runtime) : Prop := (Js.Num.ofText s.workflow.dailyLossStopPct).le s.dailyLossPct

instance (s : Runtime) : Decidable s.dailyLossHit := inferInstanceAs (Decidable (Js.Num.le _ _))

/-- Fresh checks that do not depend on the judgment's inputs. -/
def preflightOpen (s : Runtime) (symbol : String) (account : AccountView)
    (excludeThreadId : Option String) : List String :=
  (if s.halted then ["紧急停止中"] else []) ++
  (if s.workflow.paused then ["已暂停"] else []) ++
  (if ∃ p ∈ account.positions, p.symbol=symbol then [symbol ++ " 已有持仓(可能是外部的)"] else []) ++
  openingBlockers (s.openThreads.filter fun t => some t.id ≠ excludeThreadId) s.workflow symbol
    (s.threadOpensSince (utcDayStart s.now) excludeThreadId) s.dailyLossHit ++
  (match s.symbolStatus symbol with
   | some status => if status="TRADING" then [] else
      [symbol ++ " 当前状态 " ++ status ++ ",不可交易"]
   | none => [])

/-- Closed, canceled and invalidated threads of a backend, most recently closed first. -/
def closedThreads (s : Runtime) (limit : ℕ) (backend : Backend) : List StrategyThread :=
  ((s.threads.rows.filter fun t : StrategyThread => ¬t.isOpen ∧ t.backend=some backend).insertionSort
    fun t u : StrategyThread => u.closedAt.getD u.updatedAt ≤ t.closedAt.getD t.updatedAt).take limit

def setDayStartEquity (s : Runtime) (day : ℕ) (equity : String) : Runtime :=
  { s with dayStartEquity := Function.update s.dayStartEquity s.backend (some (day,equity)) }

/-- The equity moved by a fifth while nothing is held, nothing is open and nothing was closed today. -/
def seemsTransfer (s : Runtime) (start : String) (acct : AccountView) : Prop :=
  let startN := Js.Num.ofText start
  let eq := Js.Num.ofText acct.equity
  (Js.Num.fin 0).lt startN ∧ (Js.Num.fin 0).lt eq ∧ acct.positions=[] ∧ acct.openOrders=[] ∧
    (Js.Num.fin (1/5)).le ((eq.sub startN).abs.div startN) ∧
    ¬∃ t ∈ s.closedThreads 20 s.backend, utcDayStart s.now ≤ t.closedAt.getD 0

instance (s : Runtime) (start : String) (acct : AccountView) : Decidable (s.seemsTransfer start acct) :=
  inferInstanceAs (Decidable (_ ∧ _ ∧ _ ∧ _ ∧ _ ∧ _))

/-- Start-of-day equity, kept for each backend: reset on a new day, and on a transfer. -/
def trackDailyEquity (s : Runtime) (acct : AccountView) : Runtime :=
  let day := utcDayStart s.now
  match s.dayStartEquity s.backend with
  | none => s.setDayStartEquity day acct.equity
  | some (d,start) =>
    if d ≠ day then s.setDayStartEquity day acct.equity
    else if s.seemsTransfer start acct then s.setDayStartEquity day acct.equity
    else s

@[simp] theorem trackDailyEquity_threads (s : Runtime) (acct : AccountView) :
    (s.trackDailyEquity acct).threads=s.threads := by
  unfold trackDailyEquity
  split
  · rfl
  · dsimp only
    split_ifs <;> rfl

end Runtime

structure GateConfig where
  riskPct : ℚ
  maxNotionalMultiple : ℚ

def defaultGates : GateConfig := ⟨1/2,3⟩

structure Proposal where
  direction : Direction
  entry : EntryType
  limitPrice : Option String
  stopPrice : Option String
deriving DecidableEq

structure Sizing where
  qty : String
  ok : Bool
  note : String

def floorToStep (qty : Js.Num) (step : String) : String :=
  let s := Js.Num.ofText step
  if (Js.Num.fin 0).lt s then
    (((qty.div s).add (.fin (1/1000000000))).floor.mul s).toFixed (Js.decimals step)
  else qty.text

/-- Quantity from the risk budget, capped by notional, lifted to the exchange minimum and capped by
liquidity; with `fixedQty` the given quantity is checked against the same caps instead. -/
def computeSizing (p : Proposal) (equityText mark : String) (rules : SymbolRules) (symbol : String)
    (cfg : GateConfig) (fixedQty : Option String) (liquidityCap : Js.Num := .inf false) : Sizing :=
  let equity := Js.Num.ofText equityText
  let markN := Js.Num.ofText mark
  let lim := (if p.entry=.limit then p.limitPrice.filter fun x => x ≠ "" else none).map Js.Num.ofText
  let ref := lim.elim markN fun l => if p.direction=.long then l.max markN else l.min markN
  let notionalRef := lim.elim markN fun l => l.max markN
  let minimumRef := lim.elim markN fun l => l.min markN
  let stopDist := (ref.sub (.ofText (p.stopPrice.getD "0"))).abs
  let riskUsdt := (equity.mul (.fin cfg.riskPct)).div (.fin 100)
  let maxNotional := equity.mul (.fin cfg.maxNotionalMultiple)
  let minNotional := Js.Num.ofText rules.minNotional
  let byRisk := if (Js.Num.fin 0).lt stopDist then riskUsdt.div stopDist else .fin 0
  let clamped := maxNotional.lt (byRisk.mul notionalRef)
  let capped := if clamped then maxNotional.div notionalRef else byRisk
  let lifted := (Js.Num.fin 0).lt minNotional ∧ (capped.mul minimumRef).lt minNotional
  let raised := if lifted then (minNotional.mul (.fin (51/50))).div minimumRef else capped
  let illiquid := liquidityCap.lt (raised.mul notionalRef)
  let rawQty := if illiquid then ((Js.Num.fin 0).max liquidityCap).div notionalRef else raised
  let floored := floorToStep rawQty rules.stepSize
  let stepped :=
    if (Js.Num.fin 0).lt minNotional ∧ ((Js.Num.ofText floored).mul minimumRef).lt minNotional then
      let step := match Js.Num.ofText rules.stepSize with
        | .nan => .fin 0
        | step => step
      ((Js.Num.ofText floored).add step).toFixed (Js.decimals rules.stepSize)
    else floored
  let qty := fixedQty.getD stepped
  let n := Js.Num.ofText qty
  let notes :=
    (if clamped then ["名义超过权益×" ++ Js.text cfg.maxNotionalMultiple ++ ",按上限钳制"] else []) ++
    (if lifted then ["低于交易所最小名义 " ++ minNotional.text ++ " USDT,抬到最小名义(实际风险 " ++
      (raised.mul stopDist).toFixed 2 ++ " USDT)"] else []) ++
    (if illiquid then ["按24h成交量流动性上限钳制"] else [])
  let refusal :=
    if ¬((Js.Num.ofText rules.minQty).le n ∧ (Js.Num.fin 0).lt n) then some "数量低于交易所最小下单量"
    else if (n.mul minimumRef).lt minNotional then some "低于交易所最小名义，拒单"
    else if (maxNotional.mul (.fin (10001/10000))).lt (n.mul notionalRef) then
      some ("交易所最小名义 " ++ minNotional.text ++ " 高于本地名义上限 " ++
        maxNotional.toFixed 2 ++ ",拒单")
    else if ¬(n.isFinite ∧ riskUsdt.isFinite ∧ (Js.Num.fin 0).lt equity ∧ (Js.Num.fin 0).lt stopDist ∧
        (Js.Num.fin 0).lt ref ∧ (Js.Num.fin 0).lt liquidityCap ∧ ¬liquidityCap.lt (n.mul notionalRef)) then
      some "流动性上限或 sizing 数据不可用，拒单"
    else if ((riskUsdt.mul (.fin (21/20))).add (.fin (1/1000000000))).lt (n.mul stopDist) then
      let actualRisk := n.mul stopDist
      let neededEquity := ((((actualRisk.mul (.fin 100)).div (.fin cfg.riskPct)).mul (.fin 100)).sub
        (.fin (1/1000000000))).ceil.div (.fin 100)
      some ("最小下单量风险 " ++ actualRisk.toFixed 2 ++ " U > 预算 " ++ riskUsdt.toFixed 2 ++
        " U;要 " ++ neededEquity.text ++ " U 权益才能按 " ++ Js.text cfg.riskPct ++ "% 做 " ++
        symbol ++ "(容差 5%,拒单)")
    else none
  { qty := qty
    ok := refusal.isNone
    note :=
      let all := notes ++ refusal.toList
      if all=[] then "风险 " ++ riskUsdt.toFixed 2 ++ " USDT ÷ 止损距离 " ++
        stopDist.toFixed 2 ++ " = " ++ rawQty.toFixed 4
      else ";".intercalate all }

end TradeGate

/-! Intents: creation, update, and what the end of a thread does to them. -/
namespace TradeGate
open Coop

/-- The fields a caller of `newIntent` chooses. -/
structure IntentDraft where
  kind : IntentKind
  direction : Direction
  quantity : String
  entry : EntryType := .market
  limitPrice : Option String := none
  stopPrice : Option String := none
  takeProfitPrice : Option String := none
  riskPct : String

namespace Runtime

/-- `newIntent`: saves a pending intent and records it on the stored thread. -/
def newIntent [Host] (s : Runtime) (thread : StrategyThread) (principal : Principal) (d : IntentDraft) :
    DemoIntent × Runtime :=
  let intent : DemoIntent :=
    { id := s.freshIntentId
      threadId := some thread.id
      principal := principal
      createdAt := s.now
      kind := d.kind
      symbol := thread.symbol
      direction := d.direction
      quantity := d.quantity
      entry := d.entry
      limitPrice := d.limitPrice
      stopPrice := d.stopPrice
      takeProfitPrice := d.takeProfitPrice
      riskPct := d.riskPct
      status := .pendingApproval
      clientOrderId := none
      backend := s.backend
      error := none }
  let s := s.saveIntent intent
  (intent,match s.thread thread.id with
    | some t => s.saveThread { t with intentIds := t.intentIds ++ [intent.id] }
    | none => s)

/-- The entry order was found again: thaws the intents that were parked as unknown. -/
def resolveUnknownIntents (s : Runtime) (t : StrategyThread) (order : Option OrderStatusView) :
    Runtime :=
  (s.intentsForThread t.id).foldl (fun s i =>
    if i.status=.unknown then
      match order with
      | none => s
      | some o => s.saveIntent { i with
          status := if o.status=.filled then .filled else if o.status.dead then .failed else .submitted
          error := none }
    else s) s

/-- The thread ended: none of its intents may stay pending. -/
def resolveOpenIntents (s : Runtime) (t : StrategyThread) (fallback : IntentStatus) : Runtime :=
  (s.intentsForThread t.id).foldl (fun s i =>
    if i.status=.pendingApproval then
      s.saveIntent { i with status := .rejected, error := some "线程已结束" }
    else if i.status=.unknown ∨ i.status=.approved then s.saveIntent { i with status := fallback }
    else if i.status=.submitted ∧ i.kind=.open then
      s.saveIntent { i with status := if t.filledAvgPrice.isSome then .filled else fallback }
    else s) s

/-- `rejectIntent`: an error names why nothing was done. -/
def rejectIntent (s : Runtime) (intentId : String) : Except String Runtime :=
  match s.intent intentId with
  | none => .error "intent not found"
  | some intent =>
    if intent.status ≠ .pendingApproval then .error ("intent is " ++ intent.status.text)
    else
      let s := s.saveIntent { intent with status := .rejected, error := some "用户拒绝" }
      match intent.threadId.bind s.thread with
      | none => .ok s
      | some t => .ok (s.saveThread (bump { t with
          status := .canceled
          closedAt := some s.now
          closeReason := some "用户拒绝了提议" } s.now))

/-- The chat tool `close_thread`: proposes a close and waits for the user's click. -/
def chatCloseThread [Host] (s : Runtime) (threadId : String) : Except String (String × Runtime) :=
  match (s.thread threadId).filter fun t => t.isOpen with
  | none => .error "线程不存在或已结束"
  | some t =>
    let pos := s.account.bind fun a => a.positions.find? fun p => p.symbol=t.symbol
    let (intent,s) := s.newIntent t .agent
      { kind := .close, direction := t.side, quantity := (pos.map PositionView.qty).getD t.qty,
        riskPct := "0" }
    .ok (intent.id,s.saveIntent { intent with error := some "对话中提议平仓" })

end Runtime

/-- `this.newIntent(...)` inside an asynchronous method. -/
def newIntent [Host] (thread : StrategyThread) (principal : Principal) (d : IntentDraft) : RT DemoIntent := do
  let s ← Prog.read
  let (intent,s') := s.newIntent thread principal d
  Prog.update .intent fun _ => s'
  return intent

/-- `updateIntent`: the caller's copy of the intent is patched and saved whole. -/
def updateIntent (intent : DemoIntent) (patch : DemoIntent → DemoIntent) : RT DemoIntent := do
  Prog.update .intent (·.saveIntent (patch intent))
  return patch intent

end TradeGate
