import TradeGate.Model.Closing
import TradeGate.Model.Runtime

/-! Switching the execution backend. -/
namespace TradeGate
open Coop

/-- Why a switch is refused right now. -/
def Runtime.switchBlocker (s : Runtime) : Option String :=
  let open_ := s.openThreads
  if open_ ≠ [] then
    some ("还有 " ++ toString open_.length ++ " 个进行中的线程(" ++
      "、".intercalate (open_.map StrategyThread.symbol) ++ "),先平掉/撤单再换执行后端")
  else if ∃ i ∈ s.newestIntents 50, i.status=.unknown then
    some "有一笔订单状态不明,先核对清楚再换执行后端"
  else none

def Runtime.setBackend (s : Runtime) (kind : Backend) : Runtime := { s with backend := kind }

def Runtime.setSwitching (s : Runtime) (b : Bool) : Runtime := { s with switching := b }

/-- `switchBackendInner`: the next backend is started before the current one is given up. -/
def switchBackendInner (kind : Backend) : RT (Option String) := do
  match ← startBackend kind with
  | .error e => do
    let _ ← stopBackend kind
    return some (kind.text ++ " 启动失败:" ++ e)
  | .ok _ => do
    let s ← Prog.read
    Prog.update .control (·.setBackend kind)
    let _ ← stopBackend s.backend
    pollAccount
    return none

/-- `switchBackend`: the reason when the switch was refused. -/
def switchBackend (kind : Backend) : RT (Option String) := do
  let s ← Prog.read
  if s.switching then return some "正在切换执行后端,稍后再试"
  else if kind=s.backend then return none
  else match s.switchBlocker with
  | some why => return some why
  | none => do
    Prog.update .control (·.setSwitching true)
    (switchBackendInner kind).ensure .control (·.setSwitching false)

end TradeGate

/-! Emergency stop and its release. -/
namespace TradeGate
open Coop

/-- What a halt found out about one symbol. -/
def haltFailed (accountHolds : Bool) (c : Ack) (r : CloseReceipt) : Bool :=
  !c.ok || r.error.isSome || (!r.closed && accountHolds)

/-- Cancels and flattens the symbols one after the other; returns those not proven clean. -/
def flattenSymbols : List String → RT (List String)
  | [] => return []
  | sym::syms => do
    let c ← ExecBackend.cancelAll sym
    let s ← Prog.read
    let r ← ExecBackend.closePosition sym ("tgd-halt-" ++ Js.shortStamp s.now)
    let s ← Prog.read
    let holds := decide (∃ a ∈ s.account, ∃ p ∈ a.positions, p.symbol=sym)
    let failed ← flattenSymbols syms
    return if haltFailed holds c r then sym::failed else failed

/-- How the end of a halt stores an open thread. -/
def haltThread (failed : List String) (now : ℕ) (t : StrategyThread) : StrategyThread :=
  if t.symbol ∈ failed then t.flag (some .haltIncomplete) now
  else bump { t with
    status := t.endStatus
    closedAt := some now
    closeReason := some "紧急停止" } now

def halt : RT Unit := do
  Prog.update .control (·.setHalted true)
  let s ← Prog.read
  let held := (s.account.map fun a => a.positions.map PositionView.symbol).getD []
  let failed ← flattenSymbols ((s.openThreads.map StrategyThread.symbol ++ held).eraseDups)
  let s ← Prog.read
  s.openThreads.forM fun t => saveThread .halt (haltThread failed s.now t)
  pollAccount

/-- `resume('RESUME')`; without the confirmation a halt stays. -/
def Runtime.resume (s : Runtime) (confirmHalt : Option String) : Except String Runtime :=
  if s.halted ∧ confirmHalt ≠ some "RESUME" then .error "处于紧急停止,解除需要 confirm=RESUME"
  else .ok { s.setHalted false with workflow := { s.workflow with paused := false } }

end TradeGate
