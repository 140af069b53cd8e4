import TradeGate.Model.Protection

/-! One pass of the account poll: every open thread is compared with the snapshot, its status is
stored, and the missing protection is placed. -/
namespace TradeGate
open Coop

def submitPhaseMaxMs : ℕ := 150000

variable [Host]

/-- Closes the position of a thread's symbol when the snapshot shows one; whether it is proven
closed, or there was none. -/
def flattenHeld (t : StrategyThread) (hasPosition : Bool) : RT Bool :=
  if hasPosition then do
    let (cid,next) := nextLegCid t .x
    saveThread .retryHalt next
    let r ← ExecBackend.closePosition t.symbol cid
    return decide r.proven
  else return true

/-- While halted, cancels and flattens a thread's symbol until the exchange is provably clean. -/
def retryHalt (t : StrategyThread) (hasPosition : Bool) : RT Unit := do
  let c ← ExecBackend.cancelAll t.symbol
  let closed ← flattenHeld t hasPosition
  if c.ok ∧ closed then do
    let fresh ← orThrow (← ExecBackend.account)
    if ¬∃ p ∈ fresh.positions, p.symbol=t.symbol then do
      let cur ← storedOr t
      let s ← Prog.read
      saveThread .retryHalt <| { cur with
        status := t.endStatus
        closedAt := some s.now
        closeReason := some "紧急停止(重试后完成)" }.flag none s.now

/-- The remainder is terminal: the flag goes, and the quantity is what filled. -/
def settleRemainder (t : StrategyThread) (rem : Option OrderStatusView) : RT Unit := do
  let s ← Prog.read
  match (s.thread t.id).filter fun cur => cur.attention=some .entryRemainder with
  | none => return
  | some cur =>
    let qty := match rem with
      | some r => if r.status=.filled ∧ Js.positive r.executedQty then r.executedQty else cur.qty
      | none => cur.qty
    saveThread .reconcile ({ cur with qty := qty }.flag none s.now)

/-- A partly filled entry: cancels the remainder until it is provably terminal. -/
def finishRemainder (t : StrategyThread) (cid : String) : RT Unit := do
  let rem := (← ExecBackend.getOrder t.symbol cid).toOption.join
  match rem with
  | some r =>
    if r.status=.filled ∨ r.status.dead then settleRemainder t rem
    else do
      let c ← ExecBackend.cancelOrder t.symbol cid
      if c.ok then settleRemainder t rem else return
  | none => settleRemainder t rem

/-- A stop or target of the paper simulator names the reason and price of a close. -/
def withPaperClose (next : StrategyThread) (paperClose : Option PaperEvent) : StrategyThread :=
  match paperClose with
  | some ev =>
    if next.status=.closed then
      { next with
        closeReason := some ((if ev.kind=.slHit then "止损触发 @ " else "止盈触发 @ ") ++ ev.price)
        realizedPnl := ev.realizedPnl
        exitPrice := some ev.price }
    else next
  | none => next

omit [Host] in
theorem withPaperClose_of_ne {t : StrategyThread} {ev : Option PaperEvent}
    (h : t.status ≠ .closed) : withPaperClose t ev=t := by
  cases ev <;> simp [withPaperClose,h]

omit [Host] in
theorem withPaperClose_fields (t : StrategyThread) (ev : Option PaperEvent) :
    (withPaperClose t ev).status=t.status ∧ (withPaperClose t ev).attention=t.attention ∧
      (withPaperClose t ev).id=t.id ∧ (withPaperClose t ev).symbol=t.symbol := by
  cases ev with
  | none => exact ⟨rfl,rfl,rfl,rfl⟩
  | some ev =>
    unfold withPaperClose
    dsimp only
    split <;> exact ⟨rfl,rfl,rfl,rfl⟩

/-- A partial fill: the remainder of the entry is cancelled first. -/
def cancelRemainder (next : StrategyThread) : RT Unit :=
  match next.attention, next.entryClientOrderId with
  | some .entryRemainder, some cid => do
    let c ← ExecBackend.cancelOrder next.symbol cid
    let s ← Prog.read
    Prog.onlyIf (c.ok=true) <| saveThread .reconcile (next.flag none s.now)
  | _, _ => return

/-- What follows the save of a changed thread. -/
def followUp (next : StrategyThread) (events : List EventKind) (entryOrder : EntryLookup) :
    RT Unit := do
  Prog.onlyIf ((.attentionCleared ∈ events ∨ .entryFilled ∈ events) ∧ entryOrder ≠ .unqueried) <|
    Prog.update .intent (·.resolveUnknownIntents next entryOrder.order)
  Prog.onlyIf (.entryFilled ∈ events) do
    cancelRemainder next
    placeProtection next none
  Prog.onlyIf (next.status=.closed) do
    let _ ← ExecBackend.cancelAll next.symbol
    Prog.update .intent (·.resolveOpenIntents next .filled)
  Prog.onlyIf (next.status=.canceled) <| Prog.update .intent (·.resolveOpenIntents next .failed)
  Prog.onlyIf (next.attention=some .protectionMissing) <| placeProtection next none

/-- Compares one thread with the facts, saves it if it changed, and follows up. -/
def judge (t : StrategyThread) (position : Option PositionView) (openOrders : List OpenOrderView)
    (paperEvents : List PaperEvent) (entryOrder : EntryLookup) : RT Unit := do
  let s ← Prog.read
  let r := reconcileThread t ⟨s.now,position,entryOrder,openOrders⟩
  Prog.onlyIf (r.changed=true) do
    let paperClose := paperEvents.find? fun e =>
      e.symbol=t.symbol ∧ (e.kind=.slHit ∨ e.kind=.tpHit)
    let next := withPaperClose r.next paperClose
    saveThread .reconcile next
    followUp next (r.events.map Prod.fst) entryOrder

/-- The body of the pass for one thread of its list. -/
def reconcileOne (acct : AccountView) (paperEvents : List PaperEvent) (t : StrategyThread) :
    RT Unit := do
  let position := acct.positions.find? fun p => p.symbol=t.symbol
  let openOrders := acct.openOrders.filter fun o => o.symbol=t.symbol
  let s ← Prog.read
  if s.halted then
    -- halted: the only allowed work is finishing the halt; never place protection
    if t.attention=some .haltIncomplete ∨ position.isSome ∨ openOrders ≠ [] then
      retryHalt t position.isSome
    else return
  else
    match t.entryClientOrderId with
    | none => judge t position openOrders paperEvents .unqueried
    | some cid =>
      if t.attention=some .entryRemainder then finishRemainder t cid
      else if t.status ≠ .pendingEntry then judge t position openOrders paperEvents .unqueried
      else if ∃ since ∈ t.entrySubmittingSince, s.now-since<submitPhaseMaxMs then return
      else
        match ← ExecBackend.getOrder t.symbol cid with
        | .error _ => return
        | .ok order => judge t position openOrders paperEvents (.answered order)

def reconcileThreads (acct : AccountView) : RT Unit := do
  let s ← Prog.read
  let paperEvents := s.pendingPaperEvents
  Prog.update .account (·.takePaperEvents)
  let s ← Prog.read
  s.openThreads.forM (reconcileOne acct paperEvents)

/-- `pollAccountInner`; an error ends the pass and is only reported. -/
def pollAccountInner : RT Unit := do
  let acct ← orThrow (← ExecBackend.account)
  Prog.update .account fun s => (s.setAccount acct).trackDailyEquity acct
  reconcileThreads acct

end TradeGate
