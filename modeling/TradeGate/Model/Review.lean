import TradeGate.Model.Judgment

/-! Reviews of a thread: the judgment graph, what a review's decision does to a thread, and the
episodes whose model call is going on while the gateway goes on. -/
namespace TradeGate
open Coop

/-- Where a symbol is judged. -/
inductive NodeId
  | scan | scanHalted | scanWatchOnly | scanStale | reviewPendingEntry | reviewInPosition | reviewClosed
deriving DecidableEq

inductive EdgeEffect | none | watch | openThread | cancelEntry | reduceHalf | close
deriving DecidableEq

structure ModelEdge where
  id : String
  source : NodeId
  action : JudgmentAction
  effect : EdgeEffect
deriving DecidableEq

def modelEdges : List ModelEdge :=
  [⟨"scan.NO_TRADE",.scan,.noTrade,.none⟩,⟨"scan.WATCH",.scan,.watch,.watch⟩,
    ⟨"scan.PROPOSE",.scan,.propose,.openThread⟩,⟨"halted.NO_TRADE",.scanHalted,.noTrade,.none⟩,
    ⟨"stale.NO_TRADE",.scanStale,.noTrade,.none⟩,⟨"stale.WATCH",.scanStale,.watch,.watch⟩,
    ⟨"watch_only.NO_TRADE",.scanWatchOnly,.noTrade,.none⟩,
    ⟨"watch_only.WATCH",.scanWatchOnly,.watch,.watch⟩,
    ⟨"pending.HOLD",.reviewPendingEntry,.hold,.none⟩,
    ⟨"pending.INVALIDATE",.reviewPendingEntry,.invalidate,.cancelEntry⟩,
    ⟨"position.HOLD",.reviewInPosition,.hold,.none⟩,
    ⟨"position.REDUCE",.reviewInPosition,.reduce,.reduceHalf⟩,
    ⟨"position.EXIT",.reviewInPosition,.exit,.close⟩,
    ⟨"position.INVALIDATE",.reviewInPosition,.invalidate,.close⟩]

def allowedActions : NodeId → List JudgmentAction
  | .scan => [.noTrade,.watch,.propose]
  | .scanHalted => [.noTrade]
  | .scanWatchOnly | .scanStale => [.noTrade,.watch]
  | .reviewPendingEntry => [.hold,.invalidate]
  | .reviewInPosition => [.hold,.reduce,.exit,.invalidate]
  | .reviewClosed => []

/-- The thread under review is judged by its status; a scan has none. -/
def nodeFor (thread : Option StrategyThread) (halted : Bool) (marketStale watchOnly : Bool := false) :
    NodeId :=
  match thread with
  | some t => match t.status with
    | .pendingEntry => .reviewPendingEntry
    | .inPosition => .reviewInPosition
    | .closed | .canceled | .invalidated => .reviewClosed
  | none => if halted then .scanHalted else if marketStale then .scanStale
    else if watchOnly then .scanWatchOnly else .scan

def edgeFor (node : NodeId) (action : JudgmentAction) : Option ModelEdge :=
  modelEdges.find? fun e => e.source=node ∧ e.action=action

/-- What `validateGraph` checks: an action is allowed exactly where it has an edge. -/
theorem mem_allowedActions_iff (node : NodeId) (action : JudgmentAction) :
    action ∈ allowedActions node ↔ (edgeFor node action).isSome := by
  cases node <;> cases action <;> decide

/-- What a review may do to the gateway. -/
inductive ReviewEffect | none | cancelEntry | reduceHalf | close
deriving DecidableEq

structure ReviewDecision where
  accepted : Bool
  reason : String
  effect : ReviewEffect
  closeReason : Option String := .none
  edge : Option String
deriving DecidableEq

def reduceReview (t : StrategyThread) (action : JudgmentAction) : ReviewDecision :=
  match edgeFor (nodeFor (some t) false) action with
  | none => ⟨false,"线程状态 " ++ t.status.text ++ " 不接受 " ++ action.text,.none,.none,.none⟩
  | some edge => match edge.effect with
    | .none =>
      ⟨true,if t.status=.pendingEntry then "继续等入场" else "论点仍成立,继续持有",.none,.none,some edge.id⟩
    | .cancelEntry => ⟨true,"论点失效,撤入场单",.cancelEntry,some "论点失效(复查)",some edge.id⟩
    | .close =>
      if action=.invalidate then ⟨true,"论点失效,平仓",.close,some "论点失效(复查)",some edge.id⟩
      else ⟨true,"复查决定离场",.close,some "复查离场",some edge.id⟩
    | .reduceHalf => ⟨true,"复查决定减半",.reduceHalf,.none,some edge.id⟩
    | .watch => ⟨false,"图上的边 " ++ edge.id ++ " 效果 watch 不属于复查",.none,.none,some edge.id⟩
    | .openThread =>
      ⟨false,"图上的边 " ++ edge.id ++ " 效果 open_thread 不属于复查",.none,.none,some edge.id⟩

/-- The thread with the patch of the decision. -/
def ReviewDecision.patch (d : ReviewDecision) (t : StrategyThread) : StrategyThread :=
  { t with closeReason := d.closeReason.or t.closeReason }

variable [Host]

def ReviewDecision.carryOut (d : ReviewDecision) (next : StrategyThread) : RT Unit :=
  match d.effect with
  | .none => return
  | .cancelEntry => cancelEntry next (d.closeReason.getD "撤单")
  | .close => closeThreadNow next true (d.closeReason.getD "离场")
  | .reduceHalf => reduceHalf next

def ReviewAction.judged : ReviewAction → JudgmentAction
  | hold => .hold
  | reduce => .reduce
  | exit => .exit
  | invalidate => .invalidate

/-- The action as the end of a review takes it; other actions no review allows. -/
def JudgmentAction.review : JudgmentAction → ReviewAction
  | reduce => .reduce
  | exit => .exit
  | invalidate => .invalidate
  | hold | add | noTrade | watch | propose => .hold

/-- The end of a review carries out what `reduceReview` makes of the stored thread. -/
theorem applyReview_eq (threadId : String) (action : ReviewAction) :
    applyReview threadId action=(do
      let s ← Prog.read
      match (s.thread threadId).filter fun t => t.isOpen with
      | none => return
      | some current => do
        let d := reduceReview current action.judged
        let next := d.patch (bump current s.now)
        saveThread .review next
        d.carryOut next) := by
  unfold applyReview
  congr 1
  funext s
  cases hc : (s.thread threadId).filter fun t => t.isOpen with
  | none => rfl
  | some current =>
    obtain ⟨-,ho⟩ := Option.filter_eq_some_iff.mp hc
    rcases of_decide_eq_true ho with hst|hst
    · have hnode : nodeFor (some current) false=.reviewPendingEntry := by simp only [nodeFor,hst]
      cases action <;> simp [reduceReview,hnode,hst,edgeFor,modelEdges,ReviewAction.judged,
        ReviewDecision.patch,ReviewDecision.carryOut,saveThread,Prog.update,bump]
    · have hnode : nodeFor (some current) false=.reviewInPosition := by simp only [nodeFor,hst]
      cases action <;> simp [reduceReview,hnode,hst,edgeFor,modelEdges,ReviewAction.judged,
        ReviewDecision.patch,ReviewDecision.carryOut,saveThread,Prog.update,bump]

/-- A review whose model call is going on: the thread as the prompt shows it, and whether the call is
the second one, for an answer that broke the contract or the graph.  `overtaken` is not part of the
source: it tells whether the thread was given another open status meanwhile. -/
structure Judging where
  thread : StrategyThread
  repaired : Bool := false
  overtaken : Bool := false

/-- The gateway and the reviews that wait for the model. -/
structure ReviewDesk where
  config : Config Runtime Unit Writer Call Answer String Operation
  judging : List Judging := []

inductive ReviewEvent
  /-- Anything but a review goes on at the gateway. -/
  | move (m : Move Runtime Unit Call Answer Operation)
  /-- `runEpisode` reads the thread. -/
  | begin (threadId : String)
  /-- The model answers; no action is in a text that breaks the contract. -/
  | answered (k : ℕ) (verdict : Option JudgmentAction)
  /-- The episode throws. -/
  | failed (k : ℕ)

/-- What is not a step of an operation only lets time pass. -/
def ReviewEvent.Timely : ReviewEvent → Prop
  | move m => TradeGate.Timely m
  | _ => True

namespace Judging

def node (j : Judging) : NodeId := nodeFor (some j.thread) false

/-- What the episode does with the answer: it applies an allowed action, asks once more, or holds. -/
def settle (j : Judging) (verdict : Option JudgmentAction) : Option JudgmentAction :=
  match verdict.filter fun a => a ∈ allowedActions j.node with
  | some a => some a
  | none => if j.repaired then some .hold else none

/-- What a step gives an open status that it did not have before is marked as overtaken. -/
def marked (before after : Runtime) (j : Judging) : Judging :=
  if ∃ t ∈ after.thread j.thread.id, t.isOpen ∧ ∀ u ∈ before.thread j.thread.id, u.status ≠ t.status then
    { j with overtaken := true }
  else j

end Judging

namespace ReviewDesk

/-- The reviews that the gateway starts by itself are left to the episodes. -/
def moved (d : ReviewDesk) : Move Runtime Unit Call Answer Operation → ReviewDesk
  | .start (.review _ _) => d
  | m => { d with config := d.config.move gateway m }

/-- The review that an event ends, and the action that it applies. -/
def applied (d : ReviewDesk) : ReviewEvent → Option (Judging × JudgmentAction)
  | .answered k verdict => do
    let j ← d.judging[k]?
    let a ← j.settle verdict
    return (j,a)
  | _ => none

/-- The gateway and the reviews after an event. -/
def next (d : ReviewDesk) (e : ReviewEvent) : ReviewDesk :=
  match e with
  | .move m => d.moved m
  | .begin threadId => { d with judging := d.judging++((d.config.state.thread threadId).map fun t => ⟨t,false,false⟩).toList }
  | .answered k _ =>
    match d.applied e with
    | some (j,a) =>
      ⟨d.config.move gateway (.start (.review j.thread.id a.review)),d.judging.eraseIdx k⟩
    | none => { d with judging := d.judging.modify k fun j => { j with repaired := true } }
  | .failed k => { d with judging := d.judging.eraseIdx k }

def step (d : ReviewDesk) (e : ReviewEvent) : ReviewDesk :=
  { d.next e with
    judging := (d.next e).judging.map (Judging.marked d.config.state (d.next e).config.state) }

end ReviewDesk
end TradeGate
