import TradeGate.Coop.Joint
import TradeGate.Model.System

/-! `verifyProtection`: a smallest position is opened with a stop, to see that the stop can be set, found
and taken back, and closed again.  No thread and no intent is stored. -/
namespace TradeGate
open Coop

/-- What a verification has on the exchange. -/
structure Canary where
  entered : Bool
  stopLive : Bool
deriving DecidableEq

/-- The client order ids of a verification: its entry, its stop and its close. -/
def verifyCid (tag leg : String) : String := "tgd-vfy-" ++ tag ++ "-" ++ leg

/-- `(text.split('.')[1] ?? '').length`. -/
def fractionDigits (text : String) : ℕ :=
  (((text.toList.dropWhile fun c => c ≠ '.').drop 1).takeWhile fun c => c ≠ '.').length

/-- `Number(text) || fallback`. -/
def numberOr (text : String) (fallback : ℚ) : ℚ :=
  if Js.value text=0 then fallback else Js.value text

/-- The smallest quantity the rules allow at the price. -/
def smallestQty (rules : SymbolRules) (price : ℚ) : String :=
  let step := numberOr rules.stepSize (1/1000)
  let raw := max (numberOr rules.minQty step) (numberOr rules.minNotional 5*(21/20)/price)
  Js.toFixed (⌈raw/step-1/1000000000⌉*step) (fractionDigits rules.stepSize)

/-- A stop five percent away from the price. -/
def verifyStop (rules : SymbolRules) (price : ℚ) (direction : Direction) : String :=
  let tick := numberOr rules.tickSize (1/100)
  Js.toFixed (match direction with
    | .long => ⌊price*(19/20)/tick⌋*tick
    | .short => ⌈price*(21/20)/tick⌉*tick) (fractionDigits rules.tickSize)

def Runtime.setVerifying (s : Runtime) (b : Bool) : Runtime := { s with verifying := b }

/-- Cancels conditional orders one after the other; whether all of them are gone. -/
def cancelEach (symbol : String) : List String → RT Bool
  | [] => return true
  | cid::cids => do
    let s ← Prog.read
    -- the backend was switched meanwhile, and the new one has no such method
    if s.backend ≠ .agentMcp then .fail "this.backend.cancelAlgoOrder is not a function"
    else do
      let c ← ExecBackend.cancelAlgoOrder symbol cid
      let rest ← cancelEach symbol cids
      return c.ok && rest

/-- Clears what rests of the symbol's conditional orders. -/
def clearStale (symbol : String) : RT Unit := do
  let s ← Prog.read
  if s.backend ≠ .agentMcp then return
  else do
    let stale ← orThrow (← ExecBackend.listAlgoOrders symbol)
    if ← cancelEach symbol (stale.getD []) then return
    else .fail "旧条件单撤不掉"

/-- A stop that was accepted. -/
def OrderReceipt.stands (r : OrderReceipt) : Bool := r.outcome=.submitted ∨ r.outcome=.filled

/-- Opens the smallest position with its stop. -/
def openCanary (symbol tag : String) (rules : SymbolRules) (price : ℚ) : RT Canary := do
  let req : EntryRequest :=
    ⟨symbol,.long,smallestQty rules price,.market,none,verifyCid tag "e"⟩
  let s ← Prog.read
  if s.backend=.agentMcp then do
    let r ← ExecBackend.openWithProtection
      ⟨req,verifyStop rules price .long,verifyCid tag "s",none⟩
    return ⟨r.entry.outcome ≠ .failed,r.entry.outcome=.filled ∧ r.stop.outcome=.submitted⟩
  else do
    let e ← ExecBackend.placeEntry req
    if e.outcome ≠ .filled then return ⟨e.outcome ≠ .failed,false⟩
    else do
      let st ← ExecBackend.placeStop symbol .long (verifyStop rules price .long) (verifyCid tag "s")
      return ⟨true,st.stands⟩

/-- A position with its stop: the one of the account that no thread owns, or a new one. -/
def enterCanary (symbol tag : String) : RT Canary := do
  let acct ← orThrow (← ExecBackend.account)
  let s ← Prog.read
  let existing := acct.positions.find? fun p => p.symbol=symbol
  if existing.isSome ∧ ∃ t ∈ s.openThreads, t.symbol=symbol then
    .fail (symbol ++ " 已有线程持仓,换一个没有持仓的币再验证")
  else do
    clearStale symbol
    let rules ← orThrow (← ExecBackend.symbolRules symbol)
    let mark ← orThrow (← ExecBackend.markPrice symbol)
    let price := Js.value mark
    if ¬0<price then .fail (symbol ++ " 拿不到标记价")
    else match existing with
    | some p => do
      let st ← ExecBackend.placeStop symbol p.side (verifyStop rules price p.side) (verifyCid tag "s")
      return ⟨true,st.stands⟩
    | none => openCanary symbol tag rules price

/-- Takes the stop of the verification back. -/
def cancelCanaryStop (symbol tag : String) : RT Bool := do
  let s ← Prog.read
  if s.backend=.agentMcp then do
    let c ← ExecBackend.cancelAlgoOrder symbol (verifyCid tag "s")
    return c.ok
  else do
    let c ← ExecBackend.cancelOrder symbol (verifyCid tag "s")
    return c.ok

/-- Whether the exchange knows the stop; a backend that cannot tell is believed. -/
def canaryStopSeen (symbol tag : String) : RT Bool := do
  let s ← Prog.read
  if s.backend=.agentMcp then do
    let seen ← orThrow (← ExecBackend.algoOrderExists symbol (verifyCid tag "s"))
    return seen=some true
  else return true

def closeOnce (symbol tag : String) : RT Unit := do
  let _ ← ExecBackend.closePosition symbol (verifyCid tag "c")
  return

/-- Closes the position, and once more unless it is closed or gone. -/
def closeCanary (symbol tag : String) : RT Unit := do
  let cl ← ExecBackend.closePosition symbol (verifyCid tag "c")
  let fresh ← ExecBackend.account
  let flat := match fresh with
    | .ok a => decide ¬∃ p ∈ a.positions, p.symbol=symbol
    | .error _ => false
  if cl.closed || flat then return
  else closeOnce symbol tag

/-- What a failed verification leaves is taken back. -/
def abandonCanary (symbol tag : String) (c : Canary) : RT Unit := do
  Prog.onlyIf c.stopLive do
    let _ ← cancelCanaryStop symbol tag
    return
  Prog.onlyIf c.entered (closeOnce symbol tag)

/-- The stop is found and taken back, and the position closed. -/
def proveCanary (symbol tag : String) (c : Canary) : RT Unit := do
  if c.stopLive then do
    match ← (canaryStopSeen symbol tag).attempt with
    | .ok true => do
      if ← cancelCanaryStop symbol tag then closeCanary symbol tag
      else abandonCanary symbol tag c
    | _ => abandonCanary symbol tag c
  else abandonCanary symbol tag c

/-- The end of every verification: the account is read again. -/
def endVerification : RT Unit := do
  Prog.update .control (·.setVerifying false)
  match ← ExecBackend.account with
  | .ok a => Prog.update .account (·.setAccount a)
  | .error _ => return

def verifyProtection (symbol : String) : RT Unit := do
  let s ← Prog.read
  if s.backend ≠ .agentMcp then return
  else if s.verifying=true then .fail "验证正在进行"
  else if s.halted=true then .fail "紧急停止中"
  else do
    Prog.update .control (·.setVerifying true)
    let tag := Js.shortStamp s.now
    let c ← (enterCanary symbol tag).attempt
    (match c with
      | .ok c => proveCanary symbol tag c
      | .error _ => return)
    endVerification

/-- What a caller can start beside the operations that store threads and intents. -/
inductive Verification
  | verifyProtection (symbol : String)
deriving DecidableEq

def Verification.symbol : Verification → String
  | .verifyProtection symbol => symbol

def Verification.program : Verification → RT Unit
  | .verifyProtection symbol => TradeGate.verifyProtection symbol

/-- The gateway with every method that sends orders. -/
def wholeGateway [Host] : System Runtime Unit Writer Call Answer String (Operation ⊕ Verification) :=
  gateway.adding Verification.program

theorem wholeGateway_legalPlay [Host] {ms : List (Move Runtime Unit Call Answer (Operation ⊕ Verification))}
    (h : ms.Forall Timely) (c : Config Runtime Unit Writer Call Answer String (Operation ⊕ Verification)) :
    c.LegalPlay wholeGateway ms :=
  legalPlay_of_timely (fun _ _ _ _ _ => trivial) (fun _ _ _ _ h => h) h c

end TradeGate
