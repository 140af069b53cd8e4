import Mathlib.Data.List.Sort
import TradeGate.Coop.Exec
import TradeGate.Keyed.Table
import TradeGate.Model.Threads

/-! State of the gateway runtime and its store.  One shared state; every asynchronous method is
a program over it that gives the control up at its awaits. -/
namespace TradeGate
open Coop

structure Workflow where
  riskPct : String
  leverage : ℕ
  marginMode : MarginMode
  timeframe : String
  maxOpenThreads : ℕ
  maxOpensPerDay : ℕ
  dailyLossStopPct : String
  autoApprove : Bool
  chatRequiresApproval : Bool
  paused : Bool
deriving DecidableEq

/-- The fields of the runtime and the tables of its store that the modelled methods use. -/
structure Runtime where
  now : ℕ
  backend : Backend
  switching : Bool
  halted : Bool
  workflow : Workflow
  threads : Keyed.Table StrategyThread.id
  intents : Keyed.Table DemoIntent.id
  account : Option AccountView
  /-- The day and the equity it began with. -/
  dayStartEquity : Backend → Option (ℕ × String)
  markets : String → Option String
  symbolStatus : String → Option String
  protectionRetryAt : String → ℕ
  pendingPaperEvents : List PaperEvent
  approving : List String
  confirmations : List ConfirmToken
  /-- A verification of the protection is under way. -/
  verifying : Bool

/-- Which method a store write belongs to. -/
inductive Writer
  | account | reconcile | protection | retryHalt | halt | control | intent | open | cancelEntry
  | close | reduce | adopt | review | propose | reject
deriving DecidableEq

abbrev RT (α : Type) := Prog Runtime Writer Call Answer String α

namespace Runtime

def thread (s : Runtime) (id : String) : Option StrategyThread :=
  s.threads.lookup id

def saveThread (s : Runtime) (t : StrategyThread) : Runtime :=
  { s with threads := s.threads.upsert t }

def intent (s : Runtime) (id : String) : Option DemoIntent := s.intents.lookup id

def saveIntent (s : Runtime) (i : DemoIntent) : Runtime :=
  { s with intents := s.intents.upsert i }

/-- The open threads of the current backend, last updated first, at most 200. -/
def openThreads (s : Runtime) : List StrategyThread :=
  ((s.threads.rows.filter fun t : StrategyThread => t.isOpen ∧ t.backend=some s.backend).insertionSort
    fun t u : StrategyThread => u.updatedAt ≤ t.updatedAt).take 200

/-- The newest intents. -/
def newestIntents (s : Runtime) (limit : ℕ) : List DemoIntent :=
  (s.intents.rows.insertionSort fun i j : DemoIntent => j.createdAt ≤ i.createdAt).take limit

/-- The intents of a thread among the newest 500. -/
def intentsForThread (s : Runtime) (id : String) : List DemoIntent :=
  (s.newestIntents 500).filter fun i => i.threadId=some id

def setAccount (s : Runtime) (a : AccountView) : Runtime := { s with account := some a }

def setHalted (s : Runtime) (h : Bool) : Runtime := { s with halted := h }

def setMarket (s : Runtime) (symbol mark : String) : Runtime :=
  { s with markets := Function.update s.markets symbol (some mark) }

/-- `this.protectionRetryAt.set(id, Date.now())`. -/
def noteProtectionTry (s : Runtime) (id : String) : Runtime :=
  { s with protectionRetryAt := Function.update s.protectionRetryAt id s.now }

def takePaperEvents (s : Runtime) : Runtime := { s with pendingPaperEvents := [] }

/-- `id('thr')`. -/
def freshThreadId [Host] (s : Runtime) : String := Host.id "thr" (s.threads.rows.map StrategyThread.id)

/-- `id('int')`. -/
def freshIntentId [Host] (s : Runtime) : String := Host.id "int" (s.intents.rows.map DemoIntent.id)

@[simp] theorem thread_saveThread_self (s : Runtime) (t : StrategyThread) :
    (s.saveThread t).thread t.id=some t :=
  s.threads.lookup_upsert_self t

theorem thread_saveThread (s : Runtime) (t : StrategyThread) (id : String) :
    (s.saveThread t).thread id=if t.id=id then some t else s.thread id :=
  s.threads.lookup_upsert t id

theorem thread_of_mem {s : Runtime} {t : StrategyThread} (h : t ∈ s.threads.rows) :
    s.thread t.id=some t := Keyed.Table.lookup_of_mem h

theorem thread_freshThreadId [Host] (s : Runtime) : s.thread s.freshThreadId=none := by
  by_contra hn
  obtain ⟨t,ht⟩ := Option.ne_none_iff_exists'.mp hn
  have hid : t.id=s.freshThreadId := Keyed.Table.key_of_lookup ht
  have hmem : t.id ∈ s.threads.rows.map StrategyThread.id :=
    List.mem_map_of_mem (Keyed.Table.mem_of_lookup ht)
  rw [hid] at hmem
  exact Host.id_fresh _ _ hmem

theorem intent_freshIntentId [Host] (s : Runtime) : s.intent s.freshIntentId=none := by
  by_contra hn
  obtain ⟨i,hi⟩ := Option.ne_none_iff_exists'.mp hn
  have hid : i.id=s.freshIntentId := Keyed.Table.key_of_lookup hi
  have hmem : i.id ∈ s.intents.rows.map DemoIntent.id :=
    List.mem_map_of_mem (Keyed.Table.mem_of_lookup hi)
  rw [hid] at hmem
  exact Host.id_fresh _ _ hmem

/-- The stored thread with the id has the status. -/
def hasStatus (s : Runtime) (id : String) (st : ThreadStatus) : Prop :=
  ∃ t ∈ s.thread id, t.status=st

instance (s : Runtime) (id : String) (st : ThreadStatus) : Decidable (s.hasStatus id st) :=
  inferInstanceAs (Decidable (∃ t ∈ s.thread id, t.status=st))

theorem hasStatus_saveThread (s : Runtime) (t : StrategyThread) (id : String) (st : ThreadStatus) :
    (s.saveThread t).hasStatus id st ↔ if t.id=id then t.status=st else s.hasStatus id st := by
  unfold hasStatus
  rw [thread_saveThread]
  split <;> simp

theorem id_of_thread {s : Runtime} {id : String} {t : StrategyThread} (h : s.thread id=some t) :
    t.id=id := Keyed.Table.key_of_lookup h

section
variable (s : Runtime) (t : StrategyThread) (i : DemoIntent) (a : AccountView) (h : Bool)
  (x y : String)

@[simp] theorem now_saveThread : (s.saveThread t).now=s.now := rfl
@[simp] theorem halted_saveThread : (s.saveThread t).halted=s.halted := rfl
@[simp] theorem backend_saveThread : (s.saveThread t).backend=s.backend := rfl
@[simp] theorem protectionRetryAt_saveThread :
    (s.saveThread t).protectionRetryAt=s.protectionRetryAt := rfl
@[simp] theorem thread_saveIntent : (s.saveIntent i).thread x=s.thread x := rfl
@[simp] theorem halted_saveIntent : (s.saveIntent i).halted=s.halted := rfl
@[simp] theorem thread_setAccount : (s.setAccount a).thread x=s.thread x := rfl
@[simp] theorem halted_setAccount : (s.setAccount a).halted=s.halted := rfl
@[simp] theorem thread_setHalted : (s.setHalted h).thread x=s.thread x := rfl
@[simp] theorem halted_setHalted : (s.setHalted h).halted=h := rfl
@[simp] theorem thread_setMarket : (s.setMarket x y).thread x=s.thread x := rfl
@[simp] theorem halted_setMarket : (s.setMarket x y).halted=s.halted := rfl
@[simp] theorem thread_noteProtectionTry : (s.noteProtectionTry x).thread y=s.thread y := rfl
@[simp] theorem now_noteProtectionTry : (s.noteProtectionTry x).now=s.now := rfl
@[simp] theorem halted_noteProtectionTry : (s.noteProtectionTry x).halted=s.halted := rfl
@[simp] theorem backend_noteProtectionTry : (s.noteProtectionTry x).backend=s.backend := rfl
@[simp] theorem thread_takePaperEvents : s.takePaperEvents.thread x=s.thread x := rfl
@[simp] theorem halted_takePaperEvents : s.takePaperEvents.halted=s.halted := rfl

end

theorem mem_openThreads {s : Runtime} {t : StrategyThread} (h : t ∈ s.openThreads) :
    t ∈ s.threads.rows ∧ t.isOpen ∧ t.backend=some s.backend := by
  have h' := List.mem_of_mem_take h
  rw [List.mem_insertionSort] at h'
  simpa using h'

/-- No thread is listed twice. -/
theorem openThreads_nodup (s : Runtime) : (s.openThreads.map StrategyThread.id).Nodup := by
  have hrows : (s.threads.rows.map StrategyThread.id).Nodup := s.threads.nodup
  refine ((List.take_sublist _ _).map _).nodup ?_
  refine (((List.perm_insertionSort _ _).map _).nodup_iff).mpr ?_
  exact (List.filter_sublist.map _).nodup hrows

end Runtime

def saveThread (by_ : Writer) (t : StrategyThread) : RT Unit := Prog.update by_ (·.saveThread t)

/-- `this.store.thread(id) ?? t`. -/
def storedOr (t : StrategyThread) : RT StrategyThread := do
  let s ← Prog.read
  return (s.thread t.id).getD t

/-- A read that rejects with its error. -/
def orThrow {α : Type} : Except String α → RT α
  | .ok a => .done a
  | .error e => .fail e

/-- One await of the runtime. -/
abbrev ask (q : Call) : RT (Answer q) := Prog.request q

/-! The execution backend as the runtime sees it: one await for each operation. -/
namespace ExecBackend

abbrev account : RT (Except String AccountView) := ask Call.account

abbrev getOrder (symbol cid : String) : RT (Except String (Option OrderStatusView)) :=
  ask (Call.getOrder symbol cid)

abbrev algoOrderExists (symbol cid : String) : RT (Except String (Option Bool)) :=
  ask (Call.algoOrderExists symbol cid)

abbrev listAlgoOrders (symbol : String) : RT (Except String (Option (List String))) :=
  ask (Call.listAlgoOrders symbol)

abbrev cancelAlgoOrder (symbol cid : String) : RT Ack := ask (Call.cancelAlgoOrder symbol cid)

abbrev symbolRules (symbol : String) : RT (Except String SymbolRules) :=
  ask (Call.symbolRules symbol)

abbrev markPrice (symbol : String) : RT (Except String String) := ask (Call.markPrice symbol)

abbrev placeEntry (req : EntryRequest) : RT OrderReceipt := ask (Call.placeEntry req)

abbrev openWithProtection (req : OpenWithProtectionRequest) : RT OpenWithProtectionReceipt :=
  ask (Call.openWithProtection req)

abbrev placeStop (symbol : String) (position : Direction) (stopPrice cid : String) :
    RT OrderReceipt := ask (Call.placeStop symbol position stopPrice cid)

abbrev placeTakeProfit (symbol : String) (position : Direction) (tpPrice cid : String) :
    RT OrderReceipt := ask (Call.placeTakeProfit symbol position tpPrice cid)

abbrev closePosition (symbol cid : String) : RT CloseReceipt :=
  ask (Call.closePosition symbol cid)

abbrev reducePosition (symbol qty cid : String) : RT (Except String OrderReceipt) :=
  ask (Call.reducePosition symbol qty cid)

abbrev cancelAll (symbol : String) : RT Ack := ask (Call.cancelAll symbol)

abbrev cancelOrder (symbol cid : String) : RT Ack := ask (Call.cancelOrder symbol cid)

abbrev setLeverage (symbol : String) (leverage : ℕ) : RT Ack :=
  ask (Call.setLeverage symbol leverage)

abbrev setMarginType (symbol : String) (mode : MarginMode) : RT Ack :=
  ask (Call.setMarginType symbol mode)

end ExecBackend

/-- `fetchMarketView`, `fetchTicker24h` and `symbolRules` awaited together. -/
abbrev openingData (symbol timeframe : String) : RT (Except String (String × SymbolRules)) :=
  ask (Call.openingData symbol timeframe)

/-- `fetchMarketView`: the mark price. -/
abbrev marketView (symbol timeframe : String) : RT (Except String String) :=
  ask (Call.marketView symbol timeframe)

/-- `next.start()` of the backend to switch to. -/
abbrev startBackend (kind : Backend) : RT (Except String Unit) := ask (Call.startBackend kind)

/-- `stop()` of a backend that is not used any more. -/
abbrev stopBackend (kind : Backend) : RT (Except String Unit) := ask (Call.stopBackend kind)

abbrev sleep (ms : ℕ) : RT Unit := ask (Call.sleep ms)

/-- `await this.pollAccount()`: joins the poll in progress or the one just started. -/
abbrev pollAccount : RT Unit := ask Call.pollAccount

end TradeGate
