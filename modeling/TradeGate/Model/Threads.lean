import TradeGate.Model.Types

/-! Strategy threads: the status of a thread is derived again from exchange facts on every poll.
Pure functions only. -/
namespace TradeGate

/-- What the JavaScript host supplies. -/
class Host where
  sha1Hex : String → String
  sha256Hex : String → String
  /-- An id of the kind while others are in use.  The clock and random bytes make it. -/
  id : String → List String → String
  id_fresh : ∀ kind used, id kind used ∉ used

theorem le_foldr_max {n : ℕ} {ns : List ℕ} (h : n ∈ ns) : n ≤ ns.foldr max 0 := by
  induction ns with
  | nil => cases h
  | cons m ms ih =>
    rw [List.foldr_cons]
    rcases List.mem_cons.mp h with rfl|h
    · exact le_max_left _ _
    · exact (ih h).trans (le_max_right _ _)

/-- An id that is longer than those in use. -/
def longerId (kind : String) (used : List String) : String :=
  kind ++ "-" ++ String.ofList (List.replicate ((used.map String.length).foldr max 0+1) '0')

theorem longerId_fresh (kind : String) (used : List String) : longerId kind used ∉ used := by
  intro h
  have hle := le_foldr_max (List.mem_map_of_mem (f := String.length) h)
  have hgt : (used.map String.length).foldr max 0<(longerId kind used).length := by
    rw [longerId,String.length_append,String.length_ofList,List.length_replicate]
    omega
  omega

def StrategyThread.isOpen (t : StrategyThread) : Prop :=
  t.status=.pendingEntry ∨ t.status=.inPosition

instance (t : StrategyThread) : Decidable t.isOpen := inferInstanceAs (Decidable (_ ∨ _))

/-- A closed or canceled thread. -/
def StrategyThread.ended (t : StrategyThread) : Prop := t.status=.closed ∨ t.status=.canceled

instance (t : StrategyThread) : Decidable t.ended := inferInstanceAs (Decidable (_ ∨ _))

/-- A thread whose entry was never sent. -/
def StrategyThread.unsent (t : StrategyThread) : Prop :=
  t.status=.pendingEntry ∧ t.entryClientOrderId=none

instance (t : StrategyThread) : Decidable t.unsent := inferInstanceAs (Decidable (_ ∧ _))

/-- How an open thread ends: an entry is canceled, a position closed. -/
def StrategyThread.endStatus (t : StrategyThread) : ThreadStatus :=
  if t.status=.pendingEntry then .canceled else .closed

/-- The status query of the entry order in one pass. -/
inductive EntryLookup
  | unqueried
  | answered (order : Option OrderStatusView)
deriving DecidableEq

def EntryLookup.order : EntryLookup → Option OrderStatusView
  | unqueried => none
  | answered o => o

/-- Facts gathered by the runtime for one reconciliation pass. -/
structure ThreadFacts where
  now : ℕ
  position : Option PositionView
  entryOrder : EntryLookup
  openOrders : List OpenOrderView

inductive EventKind | entryFilled | closed | attention | attentionCleared | canceled
deriving DecidableEq

structure ReconcileResult where
  next : StrategyThread
  changed : Bool
  events : List (EventKind × String)

def attributionGraceMs : ℕ := 45000

def withinSubmitGrace (t : StrategyThread) (now : ℕ) : Prop :=
  ∃ at_ ∈ t.entrySubmittedAt, at_ ≤ now ∧ now-at_<attributionGraceMs

instance (t : StrategyThread) (now : ℕ) : Decidable (withinSubmitGrace t now) :=
  inferInstanceAs (Decidable (∃ at_ ∈ t.entrySubmittedAt, _))

/-- The new version of a thread, stamped with the time of the pass. -/
def bump (t : StrategyThread) (now : ℕ) : StrategyThread :=
  { t with version := t.version+1, updatedAt := now }

/-- The thread with another flag, as a new version. -/
def StrategyThread.flag (t : StrategyThread) (a : Option Attention) (now : ℕ) : StrategyThread :=
  bump { t with attention := a } now

section
variable (t : StrategyThread) (a : Option Attention) (now : ℕ)

@[simp] theorem bump_id : (bump t now).id=t.id := rfl
@[simp] theorem bump_status : (bump t now).status=t.status := rfl
@[simp] theorem bump_symbol : (bump t now).symbol=t.symbol := rfl
@[simp] theorem bump_attention : (bump t now).attention=t.attention := rfl
@[simp] theorem bump_entryClientOrderId :
    (bump t now).entryClientOrderId=t.entryClientOrderId := rfl
@[simp] theorem flag_id : (t.flag a now).id=t.id := rfl
@[simp] theorem flag_status : (t.flag a now).status=t.status := rfl
@[simp] theorem flag_symbol : (t.flag a now).symbol=t.symbol := rfl
@[simp] theorem flag_side : (t.flag a now).side=t.side := rfl
@[simp] theorem flag_stopPrice : (t.flag a now).stopPrice=t.stopPrice := rfl
@[simp] theorem flag_attention : (t.flag a now).attention=a := rfl
@[simp] theorem flag_entryClientOrderId :
    (t.flag a now).entryClientOrderId=t.entryClientOrderId := rfl

end

/-- What `newThread` is given. -/
structure NewThread where
  id : String
  backend : Backend
  symbol : String
  side : Direction
  source : ThreadSource
  timeframe : String
  entry : Entry
  stopPrice : Option String
  takeProfits : List String
  qty : String
  leverage : ℕ
  marginMode : MarginMode
  now : ℕ

def newThread (input : NewThread) : StrategyThread where
  id := input.id
  backend := some input.backend
  symbol := input.symbol
  side := input.side
  status := .pendingEntry
  source := input.source
  timeframe := input.timeframe
  entry := input.entry
  stopPrice := input.stopPrice
  takeProfits := input.takeProfits
  qty := input.qty
  leverage := input.leverage
  marginMode := input.marginMode
  entryClientOrderId := none
  protectionClientOrderIds := []
  filledAvgPrice := none
  realizedPnl := none
  exitPrice := none
  closeReason := none
  attention := none
  entryLookupMisses := 0
  entrySubmittingSince := none
  entrySubmittedAt := none
  legSeq := 0
  intentIds := []
  createdAt := input.now
  updatedAt := input.now
  openedAt := none
  closedAt := none
  version := 1

def posMatches (t : StrategyThread) (f : ThreadFacts) : Prop :=
  ∃ p ∈ f.position, p.side=t.side

instance (t : StrategyThread) (f : ThreadFacts) : Decidable (posMatches t f) :=
  inferInstanceAs (Decidable (∃ p ∈ f.position, _))

def unchanged (t : StrategyThread) : ReconcileResult := ⟨t,false,[]⟩

def orderFilled (o : OrderStatusView) : Prop := o.status=.filled ∨ o.status=.partiallyFilled

instance (o : OrderStatusView) : Decidable (orderFilled o) := inferInstanceAs (Decidable (_ ∨ _))

/-- The entry filled: the thread holds a position. -/
def fillEntry (t : StrategyThread) (f : ThreadFacts) (order : OrderStatusView)
    (position : PositionView) : ReconcileResult :=
  let partly := order.status=.partiallyFilled
  let price := order.avgPrice.getD position.entryPrice
  { next := bump { t with
      status := .inPosition
      openedAt := some f.now
      filledAvgPrice := some price
      qty := if partly ∧ Js.positive order.executedQty then order.executedQty else t.qty
      attention := if partly then some .entryRemainder else none } f.now
    changed := true
    events := [(.entryFilled,"入场" ++ (if partly then "部分" else "") ++ "成交 @ " ++ price)] }

/-- A position on the symbol that our entry did not make. -/
def foreignPosition (t : StrategyThread) (f : ThreadFacts) : ReconcileResult :=
  if posMatches t f ∧ withinSubmitGrace t f.now then unchanged t
  else if t.attention ≠ some .externalPosition then
    { next := t.flag (some .externalPosition) f.now
      changed := true
      events := [(.attention,"同币种出现不属于本线程的持仓,入场单保持但不会挂保护单;请人工处理")] }
  else unchanged t

/-- The entry order was looked up and there is no foreign position. -/
def lookedUp (t : StrategyThread) (f : ThreadFacts) : Option OrderStatusView → ReconcileResult
  | some order =>
    if order.status.dead ∧ ¬posMatches t f then
      let reason := t.closeReason.getD ("入场单 " ++ order.status.text)
      { next := bump { t with
          status := .canceled
          closedAt := some f.now
          closeReason := some reason
          attention := none } f.now
        changed := true
        events := [(.canceled,reason)] }
    else if t.attention=some .orderUnknown then
      { next := { t with entryLookupMisses := 0 }.flag none f.now
        changed := true
        events := [(.attentionCleared,"入场单已查到")] }
    else unchanged t
  | none =>
    if withinSubmitGrace t f.now then unchanged t
    else
      let t' := { t with entryLookupMisses := t.entryLookupMisses+1 }
      if t.attention ≠ some .orderUnknown then
        { next := t'.flag (some .orderUnknown) f.now
          changed := true
          events := [(.attention,"入场单在交易所查不到,持续核对(不重发,不自动撤)")] }
      else { next := bump t' f.now, changed := true, events := [] }

/-- `reconcileThread` on a thread that waits for its entry. -/
def reconcilePending (t : StrategyThread) (f : ThreadFacts) : ReconcileResult :=
  match f.entryOrder.order.filter fun o => orderFilled o, f.position with
  | some order, some position =>
    if position.side=t.side then fillEntry t f order position
    else if f.entryOrder ≠ .unqueried ∧ t.entryClientOrderId.isSome then
      lookedUp t f f.entryOrder.order
    else unchanged t
  | none, some _ =>
    if t.entryClientOrderId.isSome then foreignPosition t f
    else unchanged t
  | _, none =>
    if f.entryOrder ≠ .unqueried ∧ t.entryClientOrderId.isSome then
      lookedUp t f f.entryOrder.order
    else unchanged t

/-- The decimal strings are both numbers and lie within half a percent of the wanted price. -/
def nearWanted (price : String) (want : ℚ) : Prop :=
  ∃ p, Js.number price=some p ∧ 0<want ∧ |p-want|/want<1/200

instance (price : String) (want : ℚ) : Decidable (nearWanted price want) :=
  match h : Js.number price with
  | some p => decidable_of_iff (0<want ∧ |p-want|/want<1/200) (by simp [nearWanted,h])
  | none => .isFalse (by simp [nearWanted,h])

/-- `Number(t.stop_price ?? '0')`, where a price that is no number is never near. -/
def wantedStop (t : StrategyThread) : ℚ := (Js.number (t.stopPrice.getD "0")).getD 0

/-- Side of the orders that reduce a position. -/
def closingSide : Direction → String
  | .long => "SELL"
  | .short => "BUY"

/-- An open order that protects the thread's position. -/
def protectsThread (t : StrategyThread) (o : OpenOrderView) : Prop :=
  o.reduceOnly=true ∧ (o.type="STOP_MARKET" ∨ o.type="STOP") ∧ o.side=closingSide t.side ∧
    (o.clientOrderId ∈ t.protectionClientOrderIds ∨
      ∃ price ∈ o.stopPrice, nearWanted price (wantedStop t))

instance (t : StrategyThread) (o : OpenOrderView) : Decidable (protectsThread t o) :=
  inferInstanceAs (Decidable (_ ∧ _ ∧ _ ∧ (_ ∨ ∃ price ∈ o.stopPrice, _)))

def hasStop (t : StrategyThread) (orders : List OpenOrderView) : Prop :=
  ∃ o ∈ orders, protectsThread t o

instance (t : StrategyThread) (orders : List OpenOrderView) : Decidable (hasStop t orders) :=
  inferInstanceAs (Decidable (∃ o ∈ orders, _))

/-- The flags `reconcileThread` leaves alone because the runtime owns them. -/
def Attention.runtimeOwned (a : Attention) : Prop :=
  a=.haltIncomplete ∨ a=.entryRemainder ∨ a=.closeFailed

instance (a : Attention) : Decidable a.runtimeOwned := inferInstanceAs (Decidable (_ ∨ _ ∨ _))

def goneReason : String := "持仓已在交易所侧平掉(止损/止盈触发或手动)"

/-- `reconcileThread` on a thread that holds a position. -/
def reconcileInPosition (t : StrategyThread) (f : ThreadFacts) : ReconcileResult :=
  if ¬posMatches t f then
    let reason := t.closeReason.getD goneReason
    { next := bump { t with
        status := .closed
        closedAt := some f.now
        closeReason := some reason
        attention := none } f.now
      changed := true
      events := [(.closed,reason)] }
  else if ∃ a ∈ t.attention, a.runtimeOwned then unchanged t
  else if t.stopPrice.isSome ∧ ¬hasStop t f.openOrders then
    if t.attention=some .protectionMissing then unchanged t
    else
      { next := t.flag (some .protectionMissing) f.now
        changed := true
        events := [(.attention,"止损单不在交易所上,需要补挂")] }
  else if t.attention=none then unchanged t
  else
    { next := t.flag none f.now
      changed := true
      events := [(.attentionCleared,"止损单已恢复")] }

def reconcileThread (t : StrategyThread) (f : ThreadFacts) : ReconcileResult :=
  match t.status with
  | .pendingEntry => reconcilePending t f
  | .inPosition => reconcileInPosition t f
  | _ => unchanged t

/-- What a pass can find out about a thread. -/
inductive Judged (t : StrategyThread) (f : ThreadFacts) : ReconcileResult → Prop
  | same : Judged t f (unchanged t)
  | filled (order : OrderStatusView) (position : PositionView) (hs : t.status=.pendingEntry)
      (hq : f.entryOrder ≠ .unqueried) :
      Judged t f (fillEntry t f order position)
  | canceled (reason : String) (hs : t.status=.pendingEntry) :
      Judged t f ⟨bump { t with
        status := .canceled, closedAt := some f.now, closeReason := some reason,
        attention := none } f.now,true,[(.canceled,reason)]⟩
  | closed (reason : String) (hs : t.status=.inPosition) (hp : ¬posMatches t f) :
      Judged t f ⟨bump { t with
        status := .closed, closedAt := some f.now, closeReason := some reason,
        attention := none } f.now,true,[(.closed,reason)]⟩
  | noted (a : Option Attention) (misses : ℕ) (evs : List (EventKind × String))
      (ha : a=some .entryRemainder → t.attention=a) (hev : .entryFilled ∉ evs.map Prod.fst) :
      Judged t f ⟨bump { t with attention := a, entryLookupMisses := misses } f.now,true,evs⟩

theorem foreignPosition_judged (t : StrategyThread) (f : ThreadFacts) :
    Judged t f (foreignPosition t f) := by
  unfold foreignPosition
  split_ifs
  · exact .same
  · exact .noted _ t.entryLookupMisses _ (by simp) (by simp)
  · exact .same

theorem lookedUp_judged {t : StrategyThread} (f : ThreadFacts) (hs : t.status=.pendingEntry) :
    ∀ o, Judged t f (lookedUp t f o)
  | some order => by
    unfold lookedUp
    dsimp only
    split_ifs
    · exact .canceled _ hs
    · exact .noted none 0 _ (by simp) (by simp)
    · exact .same
  | none => by
    unfold lookedUp
    dsimp only
    split_ifs
    · exact .same
    · exact .noted _ _ _ (by simp) (by simp)
    · exact .noted t.attention _ [] (by simp) (by simp)

theorem reconcilePending_judged {t : StrategyThread} (f : ThreadFacts)
    (hs : t.status=.pendingEntry) : Judged t f (reconcilePending t f) := by
  unfold reconcilePending
  split
  · next order position ho hp =>
    split_ifs
    · refine .filled _ _ hs fun hq => ?_
      rw [hq] at ho
      cases ho
    · exact lookedUp_judged f hs _
    · exact .same
  · split_ifs
    · exact foreignPosition_judged t f
    · exact .same
  · split_ifs
    · exact lookedUp_judged f hs _
    · exact .same

theorem reconcileInPosition_judged {t : StrategyThread} (f : ThreadFacts)
    (hs : t.status=.inPosition) : Judged t f (reconcileInPosition t f) := by
  unfold reconcileInPosition
  split_ifs with hp
  · exact .same
  · exact .same
  · exact .noted _ t.entryLookupMisses _ (by simp) (by simp)
  · exact .same
  · exact .noted none t.entryLookupMisses _ (by simp) (by simp)
  · exact .closed _ hs hp

theorem reconcileThread_judged (t : StrategyThread) (f : ThreadFacts) :
    Judged t f (reconcileThread t f) := by
  unfold reconcileThread
  split
  · next hs => exact reconcilePending_judged f hs
  · next hs => exact reconcileInPosition_judged f hs
  · exact .same

/-- Only a fill makes a pass report one. -/
theorem Judged.entryFilled {t : StrategyThread} {f : ThreadFacts} {r : ReconcileResult}
    (h : Judged t f r) (hr : .entryFilled ∈ r.events.map Prod.fst) :
    r.next.status=.inPosition ∧ r.next.attention ≠ some .protectionMissing := by
  cases h with
  | same => cases hr
  | filled order position hs hq =>
    refine ⟨rfl,?_⟩
    dsimp only [fillEntry,bump]
    split_ifs <;> decide
  | canceled reason hs => simp at hr
  | closed reason hs hp => simp at hr
  | noted a misses evs ha hev => exact absurd hr hev

section
variable [Host]

def threadClientPrefix (threadId : String) : String :=
  "tgd-" ++ String.ofList ((Host.sha1Hex threadId).toList.take 12)

inductive Leg | e | s | t | x | r
deriving DecidableEq

def Leg.text : Leg → String
  | e => "e"
  | s => "s"
  | t => "t"
  | x => "x"
  | r => "r"

/-- Mints the next unique client order id for a leg and bumps the leg counter. -/
def nextLegCid (t : StrategyThread) (leg : Leg) : String × StrategyThread :=
  (threadClientPrefix t.id ++ "-" ++ leg.text ++ toString (t.legSeq+1),
    { t with legSeq := t.legSeq+1 })

section
variable (t : StrategyThread) (leg : Leg)

@[simp] theorem nextLegCid_id : (nextLegCid t leg).2.id=t.id := rfl
@[simp] theorem nextLegCid_symbol : (nextLegCid t leg).2.symbol=t.symbol := rfl
@[simp] theorem nextLegCid_side : (nextLegCid t leg).2.side=t.side := rfl
@[simp] theorem nextLegCid_status : (nextLegCid t leg).2.status=t.status := rfl
@[simp] theorem nextLegCid_attention : (nextLegCid t leg).2.attention=t.attention := rfl
@[simp] theorem nextLegCid_entryClientOrderId :
    (nextLegCid t leg).2.entryClientOrderId=t.entryClientOrderId := rfl

end
end
end TradeGate
