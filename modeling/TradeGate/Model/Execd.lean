import TradeGate.Model.Contracts
import TradeGate.Threads.Basic

/-! Execd: the store, the policy and the intents, and the requests that a client may have in flight at
once.  Each request is a thread; its reads of the store and its transaction are separate accesses. -/
namespace TradeGate.Execd
open Js Threads

/-- What execd takes from its libraries: fresh ids, and the text that `{:?}` prints of a string. -/
class Crates where
  newUuid : ℕ → String
  newUuid_injective : Function.Injective newUuid
  debug : String → String

/-! The store. -/

/-- The tables that the requests use: the policy row, the intents, the events and the last sequence
number given out. -/
structure Db where
  policy : Option ExecPolicy := none
  intents : List Intent := []
  events : List ExecEvent := []
  seq : ℕ := 0

/-- A transaction; one that throws is rolled back. -/
abbrev Tx := StateT Db (Except String)

namespace Store

def txUpsertPolicy (policy : ExecPolicy) : Tx Unit := modify fun db => { db with policy := some policy }

/-- The event with the sequence number it is given. -/
def txInsertEvent (event : ExecEvent) : Tx ExecEvent := do
  let db ← get
  let event := { event with seq := db.seq+1 }
  set { db with events := db.events++[event], seq := db.seq+1 }
  return event

/-- The row has the primary key. -/
def hasId (intentId : String) (i : Intent) : Bool := i.intentId=intentId

/-- The row has the key of the unique index. -/
def hasKey (principal : Principal) (key : String) (i : Intent) : Bool :=
  i.principal=principal ∧ i.idempotencyKey=some key

def txInsertIntent (intent : Intent) : Tx Unit := do
  let db ← get
  if db.intents.any (hasId intent.intentId) then
    throw "UNIQUE constraint failed: intents.intent_id"
  if intent.idempotencyKey.any fun key => db.intents.any (hasKey intent.principal key) then
    throw "UNIQUE constraint failed: intents.principal, intents.idempotency_key"
  set { db with intents := db.intents++[intent] }

def txUpdateIntent (intent : Intent) : Tx Unit := do
  let db ← get
  if db.intents.any (hasId intent.intentId) then
    set { db with intents := db.intents.map fun i => if hasId intent.intentId i then intent else i }
  else throw ("intent " ++ intent.intentId ++ " 不存在")

def getIntent (db : Db) (intentId : String) : Option Intent :=
  db.intents.find? (hasId intentId)

def findIntentByIdempotency (db : Db) (principal : Principal) (key : String) : Option Intent :=
  db.intents.find? (hasKey principal key)

end Store

/-- Execd: the store, the clock, how many ids were drawn, and what was published to the bus. -/
structure App where
  db : Db := {}
  now : ℤ := 0
  drawn : ℕ := 0
  bus : List ExecEvent := []

/-- The event before the store numbers it. -/
def makeEvent (name : EventName) (time : ℤ) (account : Option AccountRef) (intentId : Option String)
    (symbol : Option String) (payload : List (String × Value)) : ExecEvent :=
  ⟨0,name,time,account,intentId,symbol,payload⟩

def internal (message : String) : RpcError := ⟨.internal,message⟩

/-! The policy. -/

def defaultPolicy (now : ℤ) : ExecPolicy where
  version := 0
  updatedAt := now
  mode := .run
  authority := .observe
  emergencyStop := false
  liveCappedEnabled := false
  symbolAllowlist := []
  productAllowlist := [.usdmPerp]
  caps := {
    maxLeverage := 2
    riskPctPerTrade := ⟨"0.25",by decide⟩
    maxOrderNotional := ⟨"200",by decide⟩
    maxPositionNotional := ⟨"400",by decide⟩
    maxDailyOpens := 2
    dailyLossStopPct := ⟨"1",by decide⟩
    symbolCooldownSeconds := 3600
    maxNakedSeconds := 20
    accountTruthMaxAgeMs := 15000
    marketMaxAgeMs := 5000
    authorizationTtlMarketSeconds := 30
    authorizationTtlLimitSeconds := 120
    maxPriceDeviationBps := 55
    ntpDriftBlockMs := 2000
    ntpDriftHaltMs := 10000 }
  mainAccount := ⟨false,false,false⟩
  canary := ⟨false,none,none,none,none⟩

/-- The confirmation word by word, the version one higher, and what version one of the contract
leaves off. -/
def validateSet (current next : ExecPolicy) (confirm : PolicyConfirm) : Except RpcError Unit := do
  if confirm.mode ≠ next.mode.asStr ∨ confirm.authority ≠ next.authority.asStr then
    throw ⟨.conflict,"confirm 必须逐字回填新 policy 的 mode/authority:期望 " ++ next.mode.asStr ++ "/" ++
      next.authority.asStr ++ ",回填 " ++ confirm.mode ++ "/" ++ confirm.authority⟩
  if next.version ≠ current.version+1 then
    throw ⟨.conflict,"policy.version 必须是当前 " ++ toString current.version.toNat ++ " + 1,实得 " ++
      toString next.version.toNat⟩
  if let .error msg := next.mainAccount.validate then throw ⟨.invalidParams,msg⟩
  if next.liveCappedEnabled then
    throw ⟨.forbidden,
      "live_capped_enabled 在 v1 保持关闭,延后到设计 §16 Q6(Binance 对 standing authorization 的书面口径)解决"⟩
  if next.authority=.liveCapped then
    throw ⟨.forbidden,"authority=live_capped 需要 live_capped_enabled,v1 不可用(延后到 §16 Q6)"⟩
  if next.caps.maxNakedSeconds=0 then throw ⟨.invalidParams,"max_naked_seconds 必须 ≥ 1"⟩

/-- An emergency stop may only tighten, and always sets `emergency_stop`. -/
def applyEmergency (current : ExecPolicy) (mode : EmergencyMode) (now : ℤ) :
    Except RpcError ExecPolicy :=
  let target := mode.asPolicyMode
  if target.severity<current.mode.severity then
    .error ⟨.forbidden,"emergency_stop 只能收紧:当前 " ++ current.mode.asStr ++ " 严于 " ++
      target.asStr ++ ",放松请走 policy.set + confirm"⟩
  else .ok { current with
    mode := target
    emergencyStop := true
    version := current.version+1
    updatedAt := now }

def isHalted (policy : ExecPolicy) : Bool := policy.emergencyStop || policy.mode=.haltAll

/-! What makes a proposal valid. -/

def parsePct (x : UnsignedDecimal) : Js.Num := ((number x.text).elim .nan fun q => Double.round q)

/-- A sum of doubles is rounded. -/
def plus (a b : Js.Num) : Js.Num :=
  match a.add b with
  | .fin q => Double.round q
  | x => x

/-- Above zero, and at most a hundred. -/
def isPct (x : UnsignedDecimal) : Bool :=
  (Js.Num.fin 0).lt (parsePct x) ∧ (parsePct x).le (.fin 100)

/-- The bound of the sum, as a double. -/
def pctLimit : Js.Num := plus (.fin 100) (Double.round (1/10^9))

def validateTakeProfits : List TakeProfitSpec → Js.Num → Except RpcError Js.Num
  | [], total => .ok total
  | tp::tps, total =>
    if isPct tp.pct then validateTakeProfits tps (plus total (parsePct tp.pct))
    else .error ⟨.invalidParams,"take_profits[].pct 必须在 (0,100]"⟩

def validateParams (p : IntentProposeParams) : Except RpcError Unit :=
  match p.params with
  | .transfer t => do
    if p.principal ≠ .user ∨ p.surface ≠ .rpc then
      throw ⟨.forbidden,"transfer 只允许 principal=user 且 surface=rpc(设计 §3.5)"⟩
    if t.fromAccount=t.toAccount ∧ t.fromWallet=t.toWallet then
      throw ⟨.invalidParams,"transfer 的来源与目的完全相同"⟩
    if p.account ≠ t.fromAccount then
      throw ⟨.invalidParams,
        "transfer 的 account 必须等于 from_account(" ++ t.fromAccount.asStr ++ ")"⟩
    if ¬(Js.Num.fin 0).lt (parsePct t.amount) then
      throw ⟨.invalidParams,"transfer.amount 必须 > 0"⟩
  | .close c => if isPct c.pct then .ok () else .error ⟨.invalidParams,"close.pct 必须在 (0,100]"⟩
  | .cancelOrder c =>
    if c.orderRef.isEmpty then
      .error ⟨.invalidParams,
        "cancel_order.order_ref 至少给 exchange_order_id 或 client_order_id 之一"⟩
    else .ok ()
  | .open o => do
    if let some tps := o.takeProfits then
      let total ← validateTakeProfits tps (.fin 0)
      if pctLimit.lt total then
        throw ⟨.invalidParams,"take_profits 的 pct 合计不得超过 100"⟩
    if o.leverage=some 0 then throw ⟨.invalidParams,"leverage 必须 ≥ 1"⟩
  | .protect pr =>
    if pr.stop.isNone ∧ (pr.takeProfits.elim true List.isEmpty)=true then
      .error ⟨.invalidParams,"protect 至少要有 stop 或一条 take_profit"⟩
    else .ok ()

def validatePropose (p : IntentProposeParams) : Except RpcError Unit := do
  if p.account=.main ∧ p.principal ≠ .user then
    throw ⟨.forbidden,"主账户只接受 principal=user 的提议;agent 没有任何主账户写工具(设计 §3.5)"⟩
  validateParams p
  if let some ttl := p.ttlSeconds then
    if ¬(1 ≤ ttl ∧ ttl ≤ 86400) then throw ⟨.invalidParams,"ttl_seconds 必须在 1..=86400"⟩

def defaultTtlSeconds : ℕ := 120

/-! Requests and their accesses to the store. -/

/-- A request that writes the policy. -/
inductive PolicyRequest
  | set (p : PolicySetParams)
  | stop (p : EmergencyStopParams)
deriving DecidableEq

inductive Request
  | policy (r : PolicyRequest)
  | propose (p : IntentProposeParams)
  | reject (p : IntentRejectParams)
deriving DecidableEq

/-- What a request returns. -/
inductive Reply
  | policy (policy : ExecPolicy)
  | proposed (intent : Intent) (gateRejections : List GateRejection)
  | rejected (intent : Intent)
deriving DecidableEq

/-- An access of a request, with what the request goes by. -/
inductive Access
  | loadPolicy (r : Request)
  | setPolicy (r : PolicyRequest) (policy : ExecPolicy)
  | findIntent (p : IntentProposeParams) (policy : ExecPolicy)
  | reportCorruption (p : IntentProposeParams) (existing : Intent)
  | insertIntent (p : IntentProposeParams) (policy : ExecPolicy)
  | getIntent (p : IntentRejectParams)
  | rejectIntent (p : IntentRejectParams) (intent : Intent)
  | publish (events : List ExecEvent)
  | answer (r : Request) (reply : Except RpcError Reply)

abbrev Handler := Thread App Access RpcError

/-- A transaction of the store. -/
def transaction {α : Type} (l : Access) (tx : App → Tx α) : Handler α :=
  Thread.atomic l fun s => match (tx s).run s.db with
    | .ok (a,db) => .ok (a,{ s with db := db })
    | .error e => .error (internal e)

/-- `bus.publish`, after the commit. -/
def publish (events : List ExecEvent) : Handler Unit :=
  Thread.atomic (.publish events) fun s => .ok ((),{ s with bus := s.bus++events })

def App.currentPolicy (s : App) : ExecPolicy := s.db.policy.getD (defaultPolicy s.now)

/-- The current policy, and the time. -/
def currentPolicy (r : Request) : Handler (ExecPolicy × ℤ) :=
  Thread.read (.loadPolicy r) fun s => (s.currentPolicy,s.now)

/-! Policy requests. -/

def txPolicySet (p : PolicySetParams) (current next : ExecPolicy) : Tx (List ExecEvent) := do
  Store.txUpsertPolicy next
  let ev ← Store.txInsertEvent (makeEvent .policyChanged next.updatedAt none none none [
    ("version",.num (.fin next.version.toNat)),("mode",.str next.mode.asStr),
    ("authority",.str next.authority.asStr),("emergency_stop",.bool next.emergencyStop),
    ("principal",.str p.principal.asStr),("surface",.str p.surface.asStr)])
  if isHalted current ≠ isHalted next then
    let halt ← Store.txInsertEvent (makeEvent .haltChanged next.updatedAt none none none [
      ("halted",.bool (isHalted next)),("mode",.str next.mode.asStr)])
    return [ev,halt]
  return [ev]

def policySet (p : PolicySetParams) : Handler Reply := do
  let (current,now) ← currentPolicy (.policy (.set p))
  Thread.lift (validateSet current p.policy p.confirm)
  let next := { p.policy with updatedAt := now }
  let events ← transaction (.setPolicy (.set p) next) fun _ => txPolicySet p current next
  publish events
  return .policy next

def txEmergencyStop (p : EmergencyStopParams) (next : ExecPolicy) : Tx (List ExecEvent) := do
  Store.txUpsertPolicy next
  let ev ← Store.txInsertEvent (makeEvent .haltChanged next.updatedAt none none none [
    ("halted",.bool true),("mode",.str next.mode.asStr),("reason",.str p.reason),
    ("principal",.str p.principal.asStr),("surface",.str p.surface.asStr)])
  let pc ← Store.txInsertEvent (makeEvent .policyChanged next.updatedAt none none none [
    ("version",.num (.fin next.version.toNat)),("mode",.str next.mode.asStr),
    ("authority",.str next.authority.asStr),("emergency_stop",.bool true)])
  return [ev,pc]

def emergencyStop (p : EmergencyStopParams) : Handler Reply := do
  let (current,now) ← currentPolicy (.policy (.stop p))
  let next ← Thread.lift (applyEmergency current p.mode now)
  let events ← transaction (.setPolicy (.stop p) next) fun _ => txEmergencyStop p next
  publish events
  return .policy next

section
variable [Crates]

/-! Proposals. -/

/-- The row and the request have the same account, surface and parameters. -/
def sameContent (existing : Intent) (p : IntentProposeParams) : Except RpcError Bool := do
  if existing.account=p.account ∧ existing.surface=p.surface then
    let some a := canonicalJsonOf existing.params | throw (internal "float")
    let some b := canonicalJsonOf p.params | throw (internal "float")
    return a=b
  return false

def corruptionEvent (p : IntentProposeParams) (existing : Intent) (key : String) (now : ℤ) :
    ExecEvent :=
  makeEvent .corruptionDetected now (some p.account) (some existing.intentId)
    existing.params.symbol [("reason",.str "idempotency_key 相同但内容不同"),
      ("principal",.str p.principal.asStr),("idempotency_key",.str key)]

def conflict (existing : Intent) (key : String) : RpcError :=
  ⟨.conflict,"idempotency_key " ++ Crates.debug key ++ " 已被不同内容的 intent " ++ existing.intentId ++
    " 占用(corruption.detected 已记录)"⟩

def newIntent (p : IntentProposeParams) (intentId : String) (now : ℤ) : Intent where
  intentId := intentId
  account := p.account
  principal := p.principal
  surface := p.surface
  sessionId := p.sessionId
  runId := p.runId
  origin := p.origin
  idempotencyKey := p.idempotencyKey
  params := p.params
  status := .proposed
  statusReason := none
  gateRejections := []
  currentPlanId := none
  authorizationId := none
  ttlSeconds := p.ttlSeconds.getD defaultTtlSeconds
  createdAt := now
  updatedAt := now
  expiresAt := some (now+p.ttlSeconds.getD defaultTtlSeconds*1000)
  terminalAt := none

/-- A halt rejects, and in `observe` what is not the user's is only recorded. -/
def gate (p : IntentProposeParams) (policy : ExecPolicy) :
    List GateRejection × Option (IntentStatus × String) :=
  if policy.mode=.haltAll ∨ policy.emergencyStop=true then
    ([{ gate := if policy.emergencyStop then "policy.emergency_stop" else "policy.mode"
        value := some (if policy.emergencyStop then "true" else policy.mode.asStr)
        limit := some (if policy.emergencyStop then "false" else "run")
        message := "HALT 期间拒绝一切新提议" }],some (.rejected,"gate_rejected"))
  else if p.principal ≠ .user ∧ policy.authority=.observe then ([],some (.recorded,"observe_only"))
  else ([],none)

def GateRejection.toValue (g : GateRejection) : Value :=
  .obj ([("gate",.str g.gate)]++(g.value.map fun v => ("value",.str v)).toList++
    (g.limit.map fun v => ("limit",.str v)).toList++[("message",.str g.message)])

def invalidTransition (e : IntentStatus.InvalidTransition) : String :=
  "intent_status: " ++ e.source.asStr ++ " → " ++ e.target.asStr ++ " 不是合法迁移(事件 " ++
    e.event.elim "None" (fun name => "Some(" ++ Crates.debug name ++ ")") ++ ")"

/-- The proposed intent after its gate. -/
def gated (intent : Intent) (rejections : List GateRejection) (target : IntentStatus) (now : ℤ) :
    Intent :=
  { intent with
    status := target
    updatedAt := now
    terminalAt := if target.isTerminal then some now else none
    statusReason := some (if target=.rejected then "gate " ++ (rejections.head?.elim "" GateRejection.gate)
      else "authority=observe:只落库不执行")
    gateRejections := if target=.rejected then rejections else intent.gateRejections }

def createdEvent (intent : Intent) (now : ℤ) : ExecEvent :=
  makeEvent .intentCreated now (some intent.account) (some intent.intentId) intent.params.symbol
    [("status",.str "proposed"),("kind",.str intent.params.kind.asStr),
      ("principal",.str intent.principal.asStr)]

def gatedEvent (intent : Intent) (rejections : List GateRejection) (target : IntentStatus)
    (eventName : String) (now : ℤ) : ExecEvent :=
  makeEvent (.forIntentStatus target) now (some intent.account) (some intent.intentId)
    intent.params.symbol [("status",.str target.asStr),("event",.str eventName),
      ("gate_rejections",.arr (rejections.map GateRejection.toValue))]

def txPropose (intent : Intent) (rejections : List GateRejection)
    (nextStatus : Option (IntentStatus × String)) (now : ℤ) : Tx (Intent × List ExecEvent) := do
  Store.txInsertIntent intent
  let created ← Store.txInsertEvent (createdEvent intent now)
  match nextStatus with
  | none => return (intent,[created])
  | some (target,eventName) =>
    match intent.status.transitionTo target (some eventName) with
    | .error e => throw (invalidTransition e)
    | .ok target =>
      let intent := gated intent rejections target now
      Store.txUpdateIntent intent
      let ev ← Store.txInsertEvent (gatedEvent intent rejections target eventName now)
      return (intent,[created,ev])

/-- The id is drawn where the row is inserted. -/
def insertIntent (p : IntentProposeParams) (policy : ExecPolicy) (now : ℤ) :
    Handler (Intent × List ExecEvent) :=
  Thread.atomic (.insertIntent p policy) fun s =>
    match (txPropose (newIntent p (Crates.newUuid s.drawn) now) (gate p policy).1 (gate p policy).2
        now).run s.db with
    | .ok (r,db) => .ok (r,{ s with db := db, drawn := s.drawn+1 })
    | .error e => .error (internal e)

/-- The key is taken: the same content gets the row again, other content is a corruption. -/
def proposeAgain (p : IntentProposeParams) (key : String) (existing : Intent) (now : ℤ) :
    Handler Reply := do
  let same ← Thread.lift (sameContent existing p)
  if same then return .proposed existing existing.gateRejections
  let events ← transaction (.reportCorruption p existing) fun _ => do
    let event ← Store.txInsertEvent (corruptionEvent p existing key now)
    return [event]
  publish events
  Thread.fail (conflict existing key)

def proposeNew (p : IntentProposeParams) (policy : ExecPolicy) (now : ℤ) : Handler Reply := do
  let (intent,events) ← insertIntent p policy now
  publish events
  return .proposed intent (gate p policy).1

def propose (p : IntentProposeParams) : Handler Reply := do
  Thread.lift (validatePropose p)
  let (policy,now) ← currentPolicy (.propose p)
  match p.idempotencyKey with
  | none => proposeNew p policy now
  | some key =>
    let found ← Thread.read (.findIntent p policy) fun s =>
      Store.findIntentByIdempotency s.db p.principal key
    match found with
    | some existing => proposeAgain p key existing now
    | none => proposeNew p policy now

/-! Rejections. -/

/-- The name of the event goes by who rejects. -/
def rejectEvent (p : IntentRejectParams) : String :=
  if p.principal=.user then "user_rejected" else "regate_rejected"

def rejectedIntent (p : IntentRejectParams) (intent : Intent) (now : ℤ) : Intent :=
  { intent with
    status := .rejected
    statusReason := some (rejectEvent p ++ ": " ++ p.reason)
    updatedAt := now
    terminalAt := some now }

def rejectedEvent (p : IntentRejectParams) (intent : Intent) (now : ℤ) : ExecEvent :=
  makeEvent .intentRejected now (some intent.account) (some intent.intentId) intent.params.symbol
    [("status",.str "rejected"),("event",.str (rejectEvent p)),("reason",.str p.reason),
      ("principal",.str p.principal.asStr),("surface",.str p.surface.asStr)]

def txReject (p : IntentRejectParams) (intent : Intent) (now : ℤ) : Tx (List ExecEvent) := do
  Store.txUpdateIntent intent
  let ev ← Store.txInsertEvent (rejectedEvent p intent now)
  return [ev]

def reject (p : IntentRejectParams) : Handler Reply := do
  let (found,now) ← Thread.read (.getIntent p) fun s => (Store.getIntent s.db p.intentId,s.now)
  let some intent := found | Thread.fail ⟨.notFound,"intent " ++ p.intentId ++ " 不存在"⟩
  match intent.status.transitionTo .rejected (some (rejectEvent p)) with
  | .error e => Thread.fail ⟨.invalidTransition,invalidTransition e⟩
  | .ok _ =>
    let rejected := rejectedIntent p intent now
    let events ← transaction (.rejectIntent p intent) fun _ => txReject p rejected now
    publish events
    return .rejected rejected

/-! Connections. -/

def handle : Request → Handler Reply
  | .policy (.set p) => policySet p
  | .policy (.stop p) => emergencyStop p
  | .propose p => propose p
  | .reject p => reject p

/-- One task for each request, which sends its answer in the end. -/
def dispatch (r : Request) : Handler Unit := do
  let reply ← (handle r).outcome
  Thread.access (.answer r reply) id fun _ => .done ()

/-- Any request may come at any time, and the clock may show any time. -/
def system : System App Access RpcError Request ℤ where
  program := dispatch
  env now s := { s with now := now }

end

end TradeGate.Execd

/-! A subscription of execd: the history is replayed, then what the bus brings is passed on, while
requests commit events and publish them. -/
namespace TradeGate.Execd
open Threads

namespace Store

/-- `SELECT json FROM events WHERE seq > since ORDER BY seq LIMIT limit`; the parameter is bound
`as i64`, where a number from 2^63 on is negative. -/
def eventsSince (db : Db) (sinceSeq limit : ℕ) : List ExecEvent :=
  (db.events.filter fun ev => (Int64.ofNat sinceSeq).toInt<ev.seq).take limit

/-- `SELECT COALESCE(MAX(seq), 0) FROM events`. -/
def currentSeq (db : Db) : ℕ := (db.events.map ExecEvent.seq).foldl max 0

end Store

/-- How many messages the bus keeps for a receiver that is behind. -/
def busCapacity : ℕ := 4096

/-- How many events one read of the log brings. -/
def pageSize : ℕ := 500

/-- Where the task of a subscription stands, with what it holds. -/
inductive Task
  | opening
  | replying (current : ℕ)
  | replay (batch : List ExecEvent)
  | live
  | gap (ev : ExecEvent)
  | fill (ev : ExecEvent) (missing : List ExecEvent)
  | forward (ev : ExecEvent)
  | ended

/-- Execd and one subscription: what the client asked for, the position of its receiver on the bus, the
last number, the answer and the notifications that were sent. -/
structure Subscription where
  app : App
  sinceSeq : Option ℕ
  task : Task := .opening
  next : ℕ
  last : ℕ := 0
  answer : Option ℕ := none
  sent : List ExecEvent := []

/-- `app.bus.subscribe()` comes before any read of the log. -/
def subscribe (app : App) (sinceSeq : Option ℕ) : Subscription where
  app := app
  sinceSeq := sinceSeq
  next := app.bus.length

namespace Subscription

variable (s : Subscription)

/-- The number is noted, then the notification is sent; a connection that does not take it ends the
task. -/
def notify (ok : Bool) (ev : ExecEvent) (task : Task) : Subscription :=
  if ok then { s with last := ev.seq, sent := s.sent++[ev], task := task }
  else { s with last := ev.seq, task := .ended }

/-- The receiver is so far behind that the bus has let messages go. -/
def lagged : Bool := s.next+busCapacity<s.app.bus.length

/-- `live.recv()`, and what is made of the event that it brings. -/
def recv : Subscription :=
  if s.lagged then { s with next := s.app.bus.length-busCapacity }
  else match s.app.bus[s.next]? with
    | none => s
    | some ev =>
      let s := { s with next := s.next+1 }
      if ev.seq ≤ s.last then s
      else if ev.seq>s.last+1 then { s with task := .gap ev }
      else { s with task := .forward ev }

/-- One step of the task; `ok` says whether its read of the log, or its send, succeeds. -/
def advance (ok : Bool) : Subscription :=
  match s.task with
  | .opening =>
    if ok then { s with task := .replying (Store.currentSeq s.app.db) } else { s with task := .ended }
  | .replying current =>
    if ok then { s with answer := some current, last := s.sinceSeq.getD current, task := .replay [] }
    else { s with task := .ended }
  | .replay [] =>
    if ok then
      match Store.eventsSince s.app.db s.last pageSize with
      | [] => { s with task := .live }
      | batch => { s with task := .replay batch }
    else { s with task := .ended }
  | .replay (ev::batch) => s.notify ok ev (.replay batch)
  | .live => s.recv
  | .gap ev =>
    -- a read that fails leaves the gap as it is
    { s with task := .fill ev (if ok then Store.eventsSince s.app.db s.last pageSize else []) }
  | .fill ev (m::missing) =>
    if m.seq>s.last then s.notify ok m (.fill ev missing) else { s with task := .fill ev missing }
  | .fill ev [] => { s with task := if ev.seq ≤ s.last then .live else .forward ev }
  | .forward ev => s.notify ok ev .live
  | .ended => s

end Subscription

/-- A request commits events, an event of the log is published, or the subscription takes a step. -/
inductive Occurrence
  | commit (events : List ExecEvent)
  | publish (position : ℕ)
  | advance (ok : Bool)

/-- The events of one transaction, with the numbers that they are given. -/
def txInsertEvents : List ExecEvent → Tx Unit
  | [] => return
  | ev::evs => do
    let _ ← Store.txInsertEvent ev
    txInsertEvents evs

def Subscription.occur (s : Subscription) : Occurrence → Subscription
  | .commit events => match (txInsertEvents events).run s.app.db with
    | .ok ((),db) => { s with app := { s.app with db := db } }
    | .error _ => s
  | .publish position =>
    { s with app := { s.app with bus := s.app.bus++(s.app.db.events[position]?).toList } }
  | .advance ok => s.advance ok

end TradeGate.Execd
