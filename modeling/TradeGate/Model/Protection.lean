import TradeGate.Js.Pattern
import TradeGate.Model.Intents

/-! `placeProtection`: the stop and take-profit legs of a thread in position, and the
compensating flatten when the stop cannot be placed. -/
namespace TradeGate
open Coop Js

section texts
open Pattern

/-- The texts of a lost response: `socket.*clos`, `before a response`, `result not confirmed`,
`timed?\s*out`, `ECONNRESET`, `EPIPE`, `fetch failed`, `network`, in any case. -/
def transportPattern : Pattern :=
  alt (seq (word true "socket") (seq anything (word true "clos"))) <|
  alt (word true "before a response") <|
  alt (word true "result not confirmed") <|
  alt (seq (word true "time") (seq (alt (word true "d") eps)
    (seq (many isBlank) (word true "out")))) <|
  alt (word true "ECONNRESET") <| alt (word true "EPIPE") <|
  alt (word true "fetch failed") (word true "network")

/-- A lost transport response is not evidence of an exchange rejection. -/
def isTransportError (error : Option String) : Bool := transportPattern.test (error.getD "")

/-- `duplicate.*(?:id|order)`, `(?:client.*id).*already exists` or `-4111\b`, in any case. -/
def duplicatePattern : Pattern :=
  alt (seq (word true "duplicate") (seq anything (alt (word true "id") (word true "order")))) <|
  alt (seq (word true "client") (seq anything (seq (word true "id")
    (seq anything (word true "already exists")))))
    (seq (word true "-4111") wordEnd)

def isDuplicateId (error : Option String) : Bool := duplicatePattern.test (error.getD "")

/-- `-4130\b`: a stop that closes this side already rests at the exchange. -/
def isStopExists (error : Option String) : Bool :=
  (seq (word false "-4130") wordEnd).test (error.getD "")

/-- `-t\d+$`: the id of a take-profit leg. -/
def isTakeProfitId (id : String) : Bool :=
  (seq (word false "-t") (seq (char Char.isDigit) (seq (many Char.isDigit) atEnd))).test id

end texts

variable [Host]

/-- Legs whose receipts came with the combined entry. -/
structure PlacedLegs where
  stop : String × OrderReceipt
  tp : Option (String × OrderReceipt)

/-- A receipt whose error names a lost response is unknown. -/
def markTransport (r : OrderReceipt) : OrderReceipt :=
  if isTransportError r.error then { r with outcome := .unknown } else r

/-- `closed && !error`. -/
def CloseReceipt.proven (r : CloseReceipt) : Prop := r.closed=true ∧ r.error=none

instance (r : CloseReceipt) : Decidable r.proven := inferInstanceAs (Decidable (_ ∧ _))

/-- Whether the stop is at the exchange; `none` when the query itself is uncertain. -/
def stopSeen (t : StrategyThread) (stopId : String) : RT (Option Bool) := do
  let s ← Prog.read
  if s.backend=.agentMcp then
    match ← ExecBackend.algoOrderExists t.symbol stopId with
    | .ok seen => return seen
    | .error _ => return none
  else
    match ← ExecBackend.getOrder t.symbol stopId with
    | .ok (some found) => return some (decide ¬found.status.dead)
    | _ => return none

/-- The one resend, with the same id, of a stop the exchange does not have. -/
def resendStop (t : StrategyThread) (stopPrice stopId : String) : RT OrderReceipt := do
  let stop ← ExecBackend.placeStop t.symbol t.side stopPrice stopId
  if isTransportError stop.error then return { stop with outcome := .unknown }
  else if stop.outcome=.failed ∧ isDuplicateId stop.error then
    return { stop with outcome := .submitted, error := none }
  else return stop

/-- The stop cannot be placed: flattens, and closes the thread only on a positive receipt. -/
def compensate (t : StrategyThread) : RT Unit := do
  let (cid,t) := nextLegCid t .x
  saveThread .protection t
  let c ← ExecBackend.closePosition t.symbol cid
  let s ← Prog.read
  if c.proven then
    saveThread .protection <| { t with
      status := .closed
      closedAt := some s.now
      closeReason := some "止损单失败,补偿平仓" }.flag none s.now
    Prog.update .intent (·.resolveOpenIntents t .filled)
  else
    -- the thread stays open: a human or the next pass has to resolve it
    saveThread .protection (t.flag (some .closeFailed) s.now)

/-- The end of `placeProtection`: the stored thread gets the ids of its legs. -/
def saveProtected (t : StrategyThread) (ids : List String) : RT Unit := do
  let cur ← storedOr t
  let s ← Prog.read
  let kept := cur.attention.filter fun a => a=.entryRemainder
  saveThread .protection ({ cur with protectionClientOrderIds := ids }.flag kept s.now)

/-- Records the take-profit leg when its receipt is good; the stop alone protects otherwise. -/
def settleTakeProfit (t : StrategyThread) (ids : List String) (tpId : String) (tp : OrderReceipt) :
    RT Unit :=
  saveProtected t (if tp.outcome=.failed ∨ tp.outcome=.unknown then ids else ids ++ [tpId])

/-- The take-profit leg, if one is wanted and none is known, and the final save. -/
def placeTakeProfitLeg (t : StrategyThread) (ids : List String) (placed : Option PlacedLegs) :
    RT Unit :=
  match t.takeProfits.head? with
  | none => saveProtected t ids
  | some tp0 =>
    if tp0="" ∨ ids.any isTakeProfitId then saveProtected t ids
    else
      match placed.bind PlacedLegs.tp with
      | some (tpId,tp) => do
        saveThread .protection t
        settleTakeProfit t ids tpId tp
      | none => do
        let (tpId,t) := nextLegCid t .t
        saveThread .protection t
        settleTakeProfit t ids tpId (← ExecBackend.placeTakeProfit t.symbol t.side tp0 tpId)

/-- The stop leg after its first receipt. -/
def settleStop (t : StrategyThread) (stopId : String) (ids : List String)
    (placed : Option PlacedLegs) (stop : OrderReceipt) : RT Unit :=
  let stop := if stop.outcome=.failed ∧ isStopExists stop.error then
    { stop with outcome := .submitted, error := none } else stop
  if stop.outcome=.failed ∨ stop.outcome=.unknown then compensate t
  else placeTakeProfitLeg t (ids ++ [stopId]) placed

/-- The receipt of the stop leg: the one already placed, or that of a new order. -/
def stopReceipt (t : StrategyThread) (stopPrice stopId : String) :
    Option PlacedLegs → RT OrderReceipt
  | some p => return p.stop.2
  | none => ExecBackend.placeStop t.symbol t.side stopPrice stopId

/-- A stop whose receipt is unknown is looked up, and sent once more if it is not there. -/
def confirmStop (t : StrategyThread) (stopPrice stopId : String) (ids : List String)
    (placed : Option PlacedLegs) (stop : OrderReceipt) : RT Unit :=
  if stop.outcome=.unknown then do
    match ← stopSeen t stopId with
    | none => do
      let s ← Prog.read
      saveThread .protection (t.flag (some .protectionMissing) s.now)
    | some true => settleStop t stopId ids placed { stop with outcome := .submitted, error := none }
    | some false => settleStop t stopId ids placed (← resendStop t stopPrice stopId)
  else settleStop t stopId ids placed stop

/-- The id of the stop leg: that of the order already placed, or a new one. -/
def stopLeg (t : StrategyThread) : Option PlacedLegs → String × StrategyThread
  | some p => (p.stop.1,t)
  | none => nextLegCid t .s

/-- The protection of a thread with a stop price: the stop first, then the target. -/
def placeStopLeg (t : StrategyThread) (stopPrice : String) (ids : List String)
    (placed : Option PlacedLegs) : RT Unit := do
  let (stopId,t) := stopLeg t placed
  saveThread .protection t
  let stop ← stopReceipt t stopPrice stopId placed
  confirmStop t stopPrice stopId ids placed (markTransport stop)

/-- The protection of the thread as it is stored, without the legs that were just placed. -/
def protectThread (t : StrategyThread) (placed : Option PlacedLegs) : RT Unit :=
  let known := fun id => some id=placed.map (·.stop.1) ∨ some id=(placed.bind (·.tp)).map (·.1)
  let ids := t.protectionClientOrderIds.filter fun id => ¬known id
  match t.stopPrice.filter fun p => p ≠ "" with
  | none => placeTakeProfitLeg t ids placed
  | some stopPrice => placeStopLeg t stopPrice ids placed

/-- `placeProtection`: at most one attempt a minute for each thread. -/
def placeProtection (tIn : StrategyThread) (placed : Option PlacedLegs) : RT Unit := do
  let s ← Prog.read
  if tIn.status ≠ .inPosition ∨ s.halted then return
  else if s.now-s.protectionRetryAt tIn.id<60000 then return
  else do
    Prog.update .protection (·.noteProtectionTry tIn.id)
    let t ← storedOr tIn
    protectThread t placed

end TradeGate
