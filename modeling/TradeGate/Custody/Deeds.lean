import TradeGate.Model.System

/-! What the methods of the runtime do with the records they hold.  A method reads threads and
intents, keeps its copies across awaits, and stores edited copies.  A custody says which copies a
suspended method may still store; every store write and every request of the gateway is of one of a
few kinds, listed here once. -/
namespace TradeGate
open Coop

/-- The part of a thread that no method changes. -/
structure Plan where
  id : String
  backend : Option Backend
  symbol : String
  side : Direction
  source : ThreadSource
  timeframe : String
  entry : Entry
  stopPrice : Option String
  takeProfits : List String
  leverage : ℕ
  marginMode : MarginMode
  createdAt : ℕ
deriving DecidableEq

def StrategyThread.plan (t : StrategyThread) : Plan :=
  ⟨t.id,t.backend,t.symbol,t.side,t.source,t.timeframe,t.entry,t.stopPrice,t.takeProfits,t.leverage,
    t.marginMode,t.createdAt⟩

/-- How far a thread is. -/
structure Progress where
  status : ThreadStatus
  entryClientOrderId : Option String
  entrySubmittingSince : Option ℕ
  openedAt : Option ℕ
  qty : String
deriving DecidableEq

def StrategyThread.progress (t : StrategyThread) : Progress :=
  ⟨t.status,t.entryClientOrderId,t.entrySubmittingSince,t.openedAt,t.qty⟩

/-- The part of an intent that no method changes. -/
structure Terms where
  id : String
  threadId : Option String
  principal : Principal
  createdAt : ℕ
  kind : IntentKind
  symbol : String
  direction : Direction
  quantity : String
  entry : EntryType
  limitPrice : Option String
  stopPrice : Option String
  takeProfitPrice : Option String
  riskPct : String
  backend : Backend
deriving DecidableEq

def DemoIntent.terms (i : DemoIntent) : Terms :=
  ⟨i.id,i.threadId,i.principal,i.createdAt,i.kind,i.symbol,i.direction,i.quantity,i.entry,
    i.limitPrice,i.stopPrice,i.takeProfitPrice,i.riskPct,i.backend⟩

/-- A status with which nothing is left to decide or to find out. -/
def IntentStatus.certain (x : IntentStatus) : Prop :=
  x ≠ .pendingApproval ∧ x ≠ .approved ∧ x ≠ .unknown

/-- The terms of an opening intent are those of its thread. -/
structure DrawnFor (i : DemoIntent) (t : StrategyThread) : Prop where
  thread : i.threadId=some t.id
  symbol : i.symbol=t.symbol
  side : i.direction=t.side
  qty : i.quantity=t.qty
  entry : i.entry=t.entry.type
  price : t.entry.price=if i.entry=.limit then i.limitPrice else none
  stop : i.stopPrice=t.stopPrice

/-- The entry request of the thread is on its way, as far as the thread tells. -/
def StrategyThread.inFlight (t : StrategyThread) (now : ℕ) : Prop :=
  t.status=.pendingEntry ∧ t.entryClientOrderId.isSome ∧
    ∃ since ∈ t.entrySubmittingSince, now-since<submitPhaseMaxMs

instance (t : StrategyThread) (now : ℕ) : Decidable (t.inFlight now) :=
  inferInstanceAs (Decidable (_ ∧ _ ∧ ∃ since ∈ t.entrySubmittingSince, _))

theorem StrategyThread.inFlight_of_le {t : StrategyThread} {m n : ℕ} (h : t.inFlight n) (hmn : m ≤ n) :
    t.inFlight m := by
  obtain ⟨hs,hc,since,hsince,hn⟩ := h
  exact ⟨hs,hc,since,hsince,by omega⟩

/-- Whether a thread is in flight depends on its progress only. -/
theorem StrategyThread.inFlight_congr {t u : StrategyThread} (h : u.progress=t.progress) (now : ℕ) :
    u.inFlight now ↔ t.inFlight now := by
  simp only [progress,Progress.mk.injEq] at h
  obtain ⟨h₁,h₂,h₃,-⟩ := h
  unfold inFlight
  rw [h₁,h₂,h₃]

/-- The entry of the thread is neither still to be sent nor on its way. -/
def StrategyThread.settled (t : StrategyThread) (now : ℕ) : Prop :=
  t.status=.pendingEntry → t.entryClientOrderId.isSome ∧ ¬t.inFlight now

instance (t : StrategyThread) (now : ℕ) : Decidable (t.settled now) :=
  inferInstanceAs (Decidable (_ → _))

theorem StrategyThread.settled_of_le {t : StrategyThread} {m n : ℕ} (h : t.settled m) (hmn : m ≤ n) :
    t.settled n := fun hp => ⟨(h hp).1,fun hf => (h hp).2 (inFlight_of_le hf hmn)⟩

theorem StrategyThread.settled.not_inFlight {t : StrategyThread} {now : ℕ} (h : t.settled now) :
    ¬t.inFlight now := fun hf => (h hf.1).2 hf

theorem StrategyThread.settled_of_status {t : StrategyThread} {now : ℕ} (h : t.status ≠ .pendingEntry) :
    t.settled now := fun hp => absurd hp h

/-- A client order id of a thread. -/
def legCid [Host] (threadId : String) (leg : Leg) (n : ℕ) : String :=
  threadClientPrefix threadId ++ "-" ++ leg.text ++ toString n

/-- The client order ids of the orders a request places. -/
def Call.places : Call → List String
  | .placeEntry req => [req.clientOrderId]
  | .openWithProtection req =>
    req.entry.clientOrderId::req.stopClientAlgoId::(req.takeProfit.map Prod.snd).toList
  | .placeStop _ _ _ cid => [cid]
  | .placeTakeProfit _ _ _ cid => [cid]
  | .closePosition _ cid => [cid]
  | .reducePosition _ _ cid => [cid]
  | _ => []

/-- The request places a stop under the id. -/
def Call.placesStop (c : String) : Call → Prop
  | .placeStop _ _ _ cid => cid=c
  | .openWithProtection req => req.stopClientAlgoId=c
  | _ => False

/-- A request that only asks, or waits. -/
def Call.asks : Call → Prop
  | .account | .getOrder _ _ | .algoOrderExists _ _ | .listAlgoOrders _ | .symbolRules _ | .markPrice _
  | .openingData _ _ | .marketView _ _ | .sleep _ | .pollAccount => True
  | _ => False

/-- An order or a cancel for a thread that has its entry. -/
def Call.servesThread (t : StrategyThread) : Call → Prop
  | .placeStop symbol position price _ =>
    symbol=t.symbol ∧ position=t.side ∧ t.stopPrice=some price
  | .placeTakeProfit symbol position price _ =>
    symbol=t.symbol ∧ position=t.side ∧ t.takeProfits.head?=some price
  | .closePosition symbol _ => symbol=t.symbol
  | .reducePosition symbol _ _ => symbol=t.symbol
  | .cancelAll symbol => symbol=t.symbol
  | .cancelOrder symbol cid => symbol=t.symbol ∧ t.entryClientOrderId=some cid
  | _ => False

/-- The leverage, the margin mode or the entry of a thread. -/
def Call.opensThread (t : StrategyThread) (cid : String) : Call → Prop
  | .setLeverage symbol leverage => symbol=t.symbol ∧ leverage=t.leverage
  | .setMarginType symbol mode => symbol=t.symbol ∧ mode=t.marginMode
  | .placeEntry req => req=⟨t.symbol,t.side,t.qty,t.entry.type,t.entry.price,cid⟩
  | .openWithProtection req => req.entry=⟨t.symbol,t.side,t.qty,.market,t.entry.price,cid⟩ ∧
    t.entry.type=.market ∧ t.stopPrice=some req.stopPrice ∧
    ∀ x ∈ req.takeProfit, t.takeProfits.head?=some x.1
  | _ => False

/-- An order or a cancel for a symbol: of a halt, of a manual close, or of an adoption. -/
def Call.clears : Call → Prop
  | .closePosition _ _ | .cancelAll _ | .cancelAlgoOrder _ _ => True
  | _ => False

/-- What a method may do beyond looking after threads: open new ones, switch the backend, or rule
over the halt. -/
inductive Power | ordinary | opening | switching | ruling
deriving DecidableEq

/-- Which copies a suspended method may still store, and what else it may still do. -/
structure Custody (ω : Type) where
  inv : Runtime → ω → Prop
  /-- The copy may be stored. -/
  held : StrategyThread → Runtime → ω → Prop
  /-- The thread may be read again and stored. -/
  known : StrategyThread → Runtime → ω → Prop
  /-- Orders and cancels may be sent for the thread. -/
  kin : StrategyThread → Runtime → ω → Prop
  /-- An order of the thread may be placed under the client order id. -/
  leg : String → String → Runtime → ω → Prop
  /-- A stop of the thread may be placed once more under the client order id. -/
  again : String → String → Runtime → ω → Prop
  /-- The method took the entry id of the thread. -/
  spent : String → Runtime → ω → Prop
  /-- The entry of the thread may be sent under the id. -/
  ticket : StrategyThread → String → Runtime → ω → Prop
  owned : DemoIntent → Runtime → ω → Prop
  /-- The intent may open the thread. -/
  pairs : DemoIntent → String → Runtime → ω → Prop
  back : Runtime → ω → (q : Call) → Answer q → Runtime → ω → Prop
  /-- Ends of threads in flight are watched for. -/
  watch : Prop
  /-- The method may take copies of threads with the plan. -/
  aims : Plan → Prop := fun _ => True

namespace Custody

variable {ω : Type} (K : Custody ω)

/-- The copy is settled, or tells the progress of the stored thread, where threads in flight are
watched. -/
def Firm (t : StrategyThread) (s : Runtime) : Prop :=
  K.watch → t.settled s.now ∨ ∀ u ∈ s.thread t.id, u.progress=t.progress

/-- How far an edit takes a thread. -/
inductive Change (l : Writer) (s : Runtime) (w : ω) (t u : StrategyThread) : Prop
  | noted (h : u.progress=t.progress)
      (flag : u.attention=some .entryRemainder → t.attention=some .entryRemainder)
  | resized (h : u.progress={ t.progress with qty := u.qty }) (flag : u.attention ≠ some .entryRemainder ∨ u.attention=t.attention)
      (why : t.attention=some .entryRemainder ∨
        ∃ v, K.known v s w ∧ v.id=t.id ∧ v.status=.inPosition)
  | filled (h : u.progress={ t.progress with status := .inPosition, openedAt := u.openedAt, qty := u.qty })
      (opened : u.openedAt.isSome) (why : t.entryClientOrderId.isSome ∨ K.spent t.id s w)
  | submitted (h : u.progress={ t.progress with entrySubmittingSince := none })
      (flag : u.attention=t.attention) (why : K.spent t.id s w)
  | ended (h : u.progress={ t.progress with status := u.status, entryClientOrderId := u.entryClientOrderId })
      (status : u.ended) (cid : u.entryClientOrderId=t.entryClientOrderId ∨ K.spent t.id s w)
      (flag : u.attention=none ∨ u.attention=t.attention)
      (sure : K.watch → l=.open ∨ l=.propose ∨ l=.halt ∨ ¬t.inFlight s.now)

/-- What a method makes of a copy of a thread before it stores it. -/
structure Edit (l : Writer) (s : Runtime) (w : ω) (t u : StrategyThread) : Prop where
  plan : u.plan=t.plan
  legs : t.legSeq ≤ u.legSeq
  firm : K.Firm t s
  change : K.Change l s w t u

/-- A thread that waits for its entry, new to the store. -/
structure Proposed (s : Runtime) (t : StrategyThread) : Prop where
  unborn : s.thread t.id=none
  backend : t.backend=some s.backend
  progress : t.progress=⟨.pendingEntry,none,none,none,t.qty⟩
  attention : t.attention=none
  legs : t.legSeq=0
  alone : ¬∃ o ∈ s.openThreads, o.symbol=t.symbol

/-- An adopted position, new to the store. -/
structure Adopted (s : Runtime) (t : StrategyThread) : Prop where
  unborn : s.thread t.id=none
  backend : t.backend=some s.backend
  progress : t.progress=⟨.inPosition,none,none,t.openedAt,t.qty⟩
  opened : t.openedAt.isSome
  attention : t.attention=none
  legs : t.legSeq=0

/-- What a write does to the threads. -/
inductive ThreadMove (l : Writer) (s : Runtime) (w : ω) (s' : Runtime) : Prop
  | same (h : s'.threads=s.threads)
  | jot (t : StrategyThread) (ids : List String) (ht : s.thread t.id=some t)
      (h : s'.threads=(s.saveThread { t with intentIds := ids }).threads)
  | edit (t u : StrategyThread) (ht : K.held t s w) (he : K.Edit l s w t u)
      (h : s'.threads=(s.saveThread u).threads)
  | create (t : StrategyThread) (hc : Adopted s t) (h : s'.threads=(s.saveThread t).threads)
  | reject (t u : StrategyThread) (ht : s.thread t.id=some t) (plan : u.plan=t.plan)
      (hu : u.progress={ t.progress with status := .canceled }) (flag : u.attention=t.attention)
      (legs : u.legSeq=t.legSeq) (hl : l=.reject) (calm : K.watch → ¬t.inFlight s.now) (h : s'.threads=(s.saveThread u).threads)

/-- The opening intent of a thread that was just stored is stored and recorded on it. -/
structure Draws (s : Runtime) (t : StrategyThread) (i : DemoIntent) (s' : Runtime) : Prop where
  unborn : s.intent i.id=none
  kind : i.kind=.open
  status : i.status=.pendingApproval
  cid : i.clientOrderId=none
  drawn : DrawnFor i t
  thread : ∃ ids, s'.threads=((s.saveThread t).saveThread { t with intentIds := ids }).threads
  intent : s'.intents=(s.saveIntent i).intents
  now : s'.now=s.now
  backend : s'.backend=s.backend
  halted : s'.halted=s.halted
  account : s'.account=s.account
  dayStartEquity : s'.dayStartEquity=s.dayStartEquity

/-- What a write does to the intents. -/
inductive IntentMove (p : Power) (s : Runtime) (w : ω) (s' : Runtime) : Prop
  | same (h : s'.intents=s.intents)
  | add (i : DemoIntent) (unborn : s.intent i.id=none) (hs : i.status=.pendingApproval)
      (hc : i.clientOrderId=none) (hk : i.kind ≠ .open)
      (h : s'.intents=(s.saveIntent i).intents)
  | patch (i j : DemoIntent) (hi : K.owned i s w) (ht : j.terms=i.terms)
      (hk : i.kind=.open → p=.opening ∨ j.status=.rejected) (hs : j.status ≠ .pendingApproval)
      (h : s'.intents=(s.saveIntent j).intents)
  | resolve (f : DemoIntent → DemoIntent) (ht : ∀ i, (f i).terms=i.terms)
      (hc : ∀ i, (f i).clientOrderId=i.clientOrderId)
      (hs : ∀ i, (f i).status=i.status ∨ (f i).status.certain)
      (h : ∀ id, s'.intent id=(s.intent id).map f)

/-- What a write does to the account and to the equity the day began with. -/
inductive BookMove (s s' : Runtime) : Prop
  | same (ha : s'.account=s.account) (hd : s'.dayStartEquity=s.dayStartEquity)
  | read (a : AccountView) (h : s'=s.setAccount a)
  | track (a : AccountView) (h : s'=(s.setAccount a).trackDailyEquity a)

/-- A write of a method. -/
structure Deed (p : Power) (l : Writer) (s : Runtime) (w : ω) (s' : Runtime) : Prop where
  threads : K.ThreadMove l s w s'
  intents : K.IntentMove p s w s'
  now : s'.now=s.now
  backend : s'.backend=s.backend ∨ p=.switching
  halted : s'.halted=s.halted ∨ p=.ruling
  books : BookMove s s'

/-- What an opening makes of its thread when it takes the entry id: the thread is in flight from
here on. -/
structure Minting [Host] (s : Runtime) (t u : StrategyThread) : Prop where
  unsent : t.unsent
  plan : u.plan=t.plan
  progress : u.progress={ t.progress with
    entryClientOrderId := some (legCid t.id .e (t.legSeq+1)), entrySubmittingSince := some s.now }
  attention : u.attention=t.attention
  legs : u.legSeq=t.legSeq+1

/-- A request of a method. -/
inductive Plea (p : Power) (s : Runtime) (w : ω) (q : Call) : Prop
  | asks (h : q.asks)
  | serves (t : StrategyThread) (ht : K.kin t s w) (h : q.servesThread t)
      (hc : ∀ c ∈ q.places, K.leg t.id c s w)
  | again (t : StrategyThread) (cid price : String) (ht : K.kin t s w)
      (h : q=.placeStop t.symbol t.side price cid) (hp : t.stopPrice=some price)
      (hc : K.again t.id cid s w)
  | opens (t : StrategyThread) (cid : String) (hp : p=.opening) (ht : K.ticket t cid s w)
      (h : q.opensThread t cid) (hc : ∀ c ∈ q.places, c=cid ∨ K.leg t.id c s w)
  | clears (h : q.clears)
  | switches (hp : p=.switching) (h : (∃ kind, q=.startBackend kind) ∨ ∃ kind, q=.stopBackend kind)

/-- A write of a method: a deed, or one of the two writes with which an opening stores a thread and
its intent, or takes its entry id. -/
inductive Stroke [Host] (p : Power) (l : Writer) (s : Runtime) (w : ω) (s' : Runtime) : Prop
  | deed (inv : K.inv s w) (h : K.Deed p l s w s')
  | proposes (t : StrategyThread) (hp : p=.opening) (inv : K.inv s w) (hc : Proposed s t)
      (h : s'=s.saveThread t)
  | draws (s₀ : Runtime) (t : StrategyThread) (i : DemoIntent) (hp : p=.opening) (inv : K.inv s₀ w)
      (hc : Proposed s₀ t) (hs : s=s₀.saveThread t) (hd : Draws s₀ t i s')
  | takes (t u : StrategyThread) (hp : p=.opening) (hl : l=.open) (inv : K.inv s w)
      (held : K.held t s w) (fresh : ∀ v ∈ s.thread t.id, v=t) (hm : Minting s t u)
      (h : s'=s.saveThread u)
  | approves (s₀ : Runtime) (t u : StrategyThread) (i j : DemoIntent) (hp : p=.opening)
      (inv : K.inv s₀ w) (held : K.held t s₀ w) (owned : K.owned i s₀ w) (pairs : K.pairs i t.id s₀ w)
      (hm : Minting s₀ t u) (hs : s=s₀.saveThread u) (terms : j.terms=i.terms)
      (status : j.status=.approved) (cid : j.clientOrderId=some (legCid t.id .e (t.legSeq+1)))
      (h : s'=s.saveIntent j)

/-- The writes and requests of a method with the power: the invariant holds wherever it suspends or
fails. -/
def contract [Host] (p : Power) : Contract Runtime ω Writer Call Answer where
  may s w q := K.inv s w ∧ K.Plea p s w q
  write s w l s' := K.Stroke p l s w s'
  back := K.back
  quit := K.inv

end Custody
end TradeGate
