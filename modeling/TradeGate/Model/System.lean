import Mathlib.Data.List.Basic
import TradeGate.Coop.Scheduler
import TradeGate.Model.Confirm
import TradeGate.Model.Halt
import TradeGate.Model.Proposing

/-! The gateway as a system of operations: what a caller can start, and the program each one is. -/
namespace TradeGate
open Coop

variable [Host]

/-- `approveIntent`, once the confirmation is consumed or none is needed. -/
def approveIntent (intentId : String) : RT Unit := do
  let s ← Prog.read
  match s.intent intentId with
  | none => .fail "intent not found"
  | some intent =>
    if intent.status ≠ .pendingApproval then .fail ("intent is " ++ intent.status.text)
    else match intent.threadId.bind s.thread with
    | none => .fail "thread not found"
    | some thread =>
      if ¬thread.isOpen then .fail ("thread is " ++ thread.status.text)
      else if s.halted then .fail "紧急停止中,不能批准开仓"
      else if s.workflow.paused then .fail "已暂停,不能批准开仓"
      else match intent.kind with
      | .open => executeOpen thread intent
      | .close => do
        let intent ← updateIntent intent fun i => { i with status := .approved }
        closeThreadNow thread false (intent.error.getD "用户确认平仓")
        let s ← Prog.read
        let _ ← updateIntent intent fun i => { i with
          status := if ∃ after ∈ s.thread thread.id, ¬after.isOpen then .filled else .failed }
      | .reduce => return

/-- `approveIntent` from its first line: a human brings a one-time token, an agent may approve
alone unless the workflow wants a human. -/
def approveWith (intentId : String) (nonce : Option String) (by_ : Principal) : RT Unit := do
  let s ← Prog.read
  match s.intent intentId with
  | none => .fail "intent not found"
  | some intent =>
    if intent.status ≠ .pendingApproval then .fail ("intent is " ++ intent.status.text)
    else match by_ with
    | .agent =>
      if s.workflow.chatRequiresApproval then
        .fail "设置里开了「对话执行需人批」:agent 不能自批,请用户在界面上点确认"
      else approveIntent intentId
    | .user => do
      let (r,s') := s.consumeToken nonce .intent intent.id (intentFingerprint intent)
      Prog.update .control fun _ => s'
      match r with
      | .error e => .fail e
      | .ok _ => approveIntent intentId

def Runtime.setApproving (s : Runtime) (ids : List String) : Runtime := { s with approving := ids }

/-- One approval of an intent at a time. -/
def approve (intentId : String) (nonce : Option String) (by_ : Principal) : RT Unit := do
  let s ← Prog.read
  if intentId ∈ s.approving then .fail "approval already in progress"
  else do
    Prog.update .control fun s => s.setApproving (intentId::s.approving)
    (approveWith intentId nonce by_).ensure .control fun s =>
      s.setApproving (s.approving.filter fun id => id ≠ intentId)

/-- What a review may decide about an open thread. -/
inductive ReviewAction | hold | reduce | exit | invalidate
deriving DecidableEq

/-- The end of a review: the decision is applied to the thread as it is stored by then. -/
def applyReview (threadId : String) (action : ReviewAction) : RT Unit := do
  let s ← Prog.read
  match (s.thread threadId).filter fun t => t.isOpen with
  | none => return
  | some current =>
    let next := bump current s.now
    match current.status,action with
    | .pendingEntry,.invalidate => do
      saveThread .review { next with closeReason := some "论点失效(复查)" }
      cancelEntry { next with closeReason := some "论点失效(复查)" } "论点失效(复查)"
    | .inPosition,.invalidate => do
      saveThread .review { next with closeReason := some "论点失效(复查)" }
      closeThreadNow { next with closeReason := some "论点失效(复查)" } true "论点失效(复查)"
    | .inPosition,.exit => do
      saveThread .review { next with closeReason := some "复查离场" }
      closeThreadNow { next with closeReason := some "复查离场" } true "复查离场"
    | .inPosition,.reduce => do
      saveThread .review next
      reduceHalf next
    | _,_ => saveThread .review next

/-- A method that runs without an await. -/
def atOnce (by_ : Writer) (f : Runtime → Except String Runtime) : RT Unit := do
  let s ← Prog.read
  match f s with
  | .error e => .fail e
  | .ok s' => Prog.update by_ fun _ => s'

/-- The operations a caller or a timer can start. -/
inductive Operation
  | poll
  | executeOpen (threadId intentId : String)
  | approveIntent (intentId : String)
  | rejectIntent (intentId : String)
  | chatCloseThread (threadId : String)
  | closeThread (threadId reason : String)
  | review (threadId : String) (action : ReviewAction)
  | halt
  | resume (confirmHalt : Option String)
  | adoptPosition (symbol : String) (stop takeProfit : Option String)
  | openThreadFromProposal (symbol : String) (p : Proposal) (takeProfits : List String)
      (staleMark : String) (source : ThreadSource) (forceApproval : Bool)
  | manualOrder (req : ManualOrderRequest) (close : Bool)
  | scan (symbol : String) (at_ : ℕ) (p : Proposal) (takeProfits : List String)
      (staleMark : String) (gatesPassed : Bool)
  | issueConfirmation (intentId : String)
  | approve (intentId : String) (nonce : Option String) (by_ : Principal)
  | setWorkflow (next : Workflow)
  | switchBackend (kind : Backend)
deriving DecidableEq

def Operation.program : Operation → RT Unit
  | .poll => pollAccountInner
  | .executeOpen threadId intentId => do
    let s ← Prog.read
    match s.thread threadId,s.intent intentId with
    | some thread,some intent => TradeGate.executeOpen thread intent
    | _,_ => return
  | .approveIntent id => TradeGate.approveIntent id
  | .rejectIntent id => atOnce .reject (·.rejectIntent id)
  | .chatCloseThread id => atOnce .intent fun s => (s.chatCloseThread id).map Prod.snd
  | .closeThread id reason => TradeGate.closeThread id reason
  | .review id action => applyReview id action
  | .halt => TradeGate.halt
  | .resume confirm => atOnce .control (·.resume confirm)
  | .adoptPosition symbol stop tp => TradeGate.adoptPosition symbol stop tp
  | .openThreadFromProposal symbol p tps mark source force =>
    TradeGate.openThreadFromProposal symbol p tps mark source force
  | .manualOrder req close => TradeGate.manualOrder req close
  | .scan symbol at_ p tps mark gates => applyProposal symbol at_ p tps mark gates
  | .issueConfirmation id => atOnce .control fun s => (s.issueIntentConfirmation id).map Prod.snd
  | .approve id nonce by_ => TradeGate.approve id nonce by_
  | .setWorkflow next => Prog.update .control fun s => { s with workflow := next }
  | .switchBackend kind => do
    let _ ← TradeGate.switchBackend kind
    return

/-- A gateway whose outside world may give any answer, and where time passes. -/
def gateway : System Runtime Unit Writer Call Answer String Operation where
  program := Operation.program
  send w _ := w
  serve _ _ _ _ _ := True
  drift s _ s' _ := ∃ ms, s'={ s with now := s.now+ms }

/-- The runtime on an empty store. -/
def Runtime.fresh (backend : Backend) (workflow : Workflow) (now : ℕ) : Runtime where
  now := now
  backend := backend
  switching := false
  halted := false
  workflow := workflow
  threads := .empty
  intents := .empty
  account := none
  dayStartEquity := fun _ => none
  markets := fun _ => none
  symbolStatus := fun _ => none
  protectionRetryAt := fun _ => 0
  pendingPaperEvents := []
  approving := []
  confirmations := []
  verifying := false

/-- The states of the runtime that operations, in any order and interleaving, can lead to from an
empty store. -/
def Reachable (s : Runtime) : Prop := ∃ backend workflow now c,
  Run gateway anyStep ⟨Runtime.fresh backend workflow now,(),[]⟩ c ∧ c.state=s

/-- A move of a script that, if it is not a step of an operation, only lets time pass. -/
def Timely {O : Type} : Move Runtime Unit Call Answer O → Prop
  | .drift state _ => ∀ s, ∃ ms, state s={ s with now := s.now+ms }
  | _ => True

omit [Host] in
theorem legalPlay_of_timely {O : Type} {S : System Runtime Unit Writer Call Answer String O}
    (hserve : ∀ s w q r w', S.serve s w q r w')
    (hdrift : ∀ s w s' w', (∃ ms, s'={ s with now := s.now+ms }) → S.drift s w s' w')
    {ms : List (Move Runtime Unit Call Answer O)} (h : ms.Forall Timely)
    (c : Config Runtime Unit Writer Call Answer String O) : c.LegalPlay S ms := by
  induction ms generalizing c with
  | nil => trivial
  | cons m ms ih =>
    obtain ⟨hm,hms⟩ := List.forall_cons Timely m ms |>.mp h
    refine ⟨?_,ih hms _⟩
    cases m with
    | start o => trivial
    | resume i => trivial
    | drift f g => exact hdrift _ _ _ _ (hm c.state)
    | serve i answer world =>
      rintro ⟨o,q|q⟩ -
      · exact hserve _ _ _ _ _
      · trivial

theorem gateway_legalPlay {ms : List (Move Runtime Unit Call Answer Operation)}
    (h : ms.Forall Timely) (c : Config Runtime Unit Writer Call Answer String Operation) :
    c.LegalPlay gateway ms :=
  legalPlay_of_timely (fun _ _ _ _ _ => trivial) (fun _ _ _ _ h => h) h c

theorem reachable_of_play {backend : Backend} {workflow : Workflow} {now : ℕ}
    {ms : List (Move Runtime Unit Call Answer Operation)} (h : ms.Forall Timely) :
    Reachable ((Config.mk (Runtime.fresh backend workflow now) () []).play gateway ms).state :=
  ⟨backend,workflow,now,_,.of_play .refl (gateway_legalPlay h _),rfl⟩

/-- One answer for each kind of request. -/
structure Replies where
  account : Except String AccountView
  rules : Except String SymbolRules
  order : Except String (Option OrderStatusView)
  placed : OrderReceipt
  close : CloseReceipt
  ack : Ack

def Replies.answer (r : Replies) : (q : Call) → Answer q
  | .account => r.account
  | .getOrder _ _ => r.order
  | .algoOrderExists _ _ => .ok none
  | .listAlgoOrders _ => .ok none
  | .cancelAlgoOrder _ _ => r.ack
  | .symbolRules _ => r.rules
  | .markPrice _ => .error "no market"
  | .placeEntry _ => r.placed
  | .openWithProtection _ => ⟨r.placed,⟨.skipped,none⟩,⟨.skipped,none⟩⟩
  | .placeStop _ _ _ _ => r.placed
  | .placeTakeProfit _ _ _ _ => r.placed
  | .closePosition _ _ => r.close
  | .reducePosition _ _ _ => .ok r.placed
  | .cancelAll _ => r.ack
  | .cancelOrder _ _ => r.ack
  | .setLeverage _ _ => r.ack
  | .setMarginType _ _ => r.ack
  | .openingData _ _ => .error "no market"
  | .marketView _ _ => .error "no market"
  | .sleep _ => ()
  | .pollAccount => ()
  | .startBackend _ => .ok ()
  | .stopBackend _ => .ok ()

end TradeGate
