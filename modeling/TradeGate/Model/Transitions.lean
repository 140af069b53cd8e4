import Mathlib.Data.List.Basic

/-! The transition tables that the gateway and execd share, and how they are read. -/
namespace TradeGate.Transitions

structure Transition where
  source : String
  target : String
  event : String
deriving DecidableEq, Repr

structure TransitionTable where
  machine : String
  initial : String
  states : List String
  terminal : List String
  transitions : List Transition
deriving DecidableEq, Repr

def intentStatus : TransitionTable where
  machine := "intent_status"
  initial := "proposed"
  states := ["proposed","rejected","awaiting_approval","authorized","recorded","dispatching","execution_unknown",
    "executing","completed","canceled","expired"]
  terminal := ["rejected","recorded","completed","canceled","expired"]
  transitions := [
    ⟨"proposed","rejected","gate_rejected"⟩,
    ⟨"proposed","awaiting_approval","plan_materialized"⟩,
    ⟨"proposed","authorized","policy_auto_authorized"⟩,
    ⟨"proposed","recorded","observe_only"⟩,
    ⟨"proposed","expired","proposal_ttl_elapsed"⟩,
    ⟨"awaiting_approval","authorized","user_approved"⟩,
    ⟨"awaiting_approval","expired","approval_ttl_elapsed"⟩,
    ⟨"awaiting_approval","rejected","user_rejected"⟩,
    ⟨"awaiting_approval","rejected","regate_rejected"⟩,
    ⟨"authorized","dispatching","executor_claimed"⟩,
    ⟨"authorized","rejected","regate_rejected"⟩,
    ⟨"authorized","expired","authorization_ttl_elapsed"⟩,
    ⟨"authorized","canceled","halted_before_dispatch"⟩,
    ⟨"dispatching","executing","exchange_acked"⟩,
    ⟨"dispatching","rejected","exchange_rejected"⟩,
    ⟨"dispatching","rejected","regate_rejected"⟩,
    ⟨"dispatching","execution_unknown","submit_ambiguous"⟩,
    ⟨"dispatching","canceled","halted_before_submit"⟩,
    ⟨"execution_unknown","executing","reconciled_found"⟩,
    ⟨"execution_unknown","canceled","confirmed_not_received"⟩,
    ⟨"executing","completed","effect_satisfied"⟩,
    ⟨"executing","canceled","cancel_confirmed"⟩,
    ⟨"executing","canceled","expired_on_exchange"⟩,
    ⟨"executing","canceled","compensation_close"⟩]

def authorizationStatus : TransitionTable where
  machine := "authorization_status"
  initial := "active"
  states := ["active","consumed","expired","invalidated","revoked"]
  terminal := ["consumed","expired","invalidated","revoked"]
  transitions := [
    ⟨"active","consumed","dispatched"⟩,
    ⟨"active","expired","ttl_elapsed"⟩,
    ⟨"active","invalidated","plan_changed"⟩,
    ⟨"active","invalidated","regate_rejected"⟩,
    ⟨"active","invalidated","account_version_changed"⟩,
    ⟨"active","revoked","user_revoked"⟩,
    ⟨"active","revoked","emergency_stop"⟩]

def attemptResult : TransitionTable where
  machine := "attempt_result"
  initial := "pending"
  states := ["pending","acked","rejected","unknown","not_received"]
  terminal := ["acked","rejected","not_received"]
  transitions := [
    ⟨"pending","acked","exchange_acked"⟩,
    ⟨"pending","rejected","exchange_rejected"⟩,
    ⟨"pending","unknown","ambiguous"⟩,
    ⟨"pending","not_received","never_submitted"⟩,
    ⟨"unknown","acked","reconciled_found"⟩,
    ⟨"unknown","rejected","reconciled_rejected"⟩,
    ⟨"unknown","not_received","confirmed_not_received"⟩]

def exchangeOrderStatus : TransitionTable where
  machine := "exchange_order_status"
  initial := "new"
  states := ["new","partially_filled","filled","canceled","expired","rejected"]
  terminal := ["filled","canceled","expired","rejected"]
  transitions := [
    ⟨"new","partially_filled","partial_fill"⟩,
    ⟨"new","filled","fill"⟩,
    ⟨"new","canceled","cancel"⟩,
    ⟨"new","expired","expire"⟩,
    ⟨"new","rejected","reject"⟩,
    ⟨"partially_filled","filled","fill"⟩,
    ⟨"partially_filled","canceled","cancel"⟩,
    ⟨"partially_filled","expired","expire"⟩]

/-- `all`. -/
def machines : List TransitionTable := [intentStatus,authorizationStatus,attemptResult,exchangeOrderStatus]

/-- The table of a name; the source panics where there is none. -/
def machine (name : String) : Option TransitionTable := machines.find? fun t => t.machine=name

namespace TransitionTable

def isState (t : TransitionTable) (state : String) : Bool := state ∈ t.states

def isTerminal (t : TransitionTable) (state : String) : Bool := state ∈ t.terminal

def canTransition (t : TransitionTable) (source target : String) : Bool :=
  t.transitions.any fun x => x.source=source && x.target=target

/-- Where an event leads; a later line of the table overrides an earlier one. -/
def nextState (t : TransitionTable) (source event : String) : Option String :=
  ((t.transitions.filter fun x => x.source=source && x.event=event).getLast?).map Transition.target

def outgoing (t : TransitionTable) (source : String) : List Transition :=
  t.transitions.filter fun x => x.source=source

end TransitionTable

/-- An observation of an order after another one: the same state, or a step of the table. -/
def observationConsistent (prev next : String) : Bool :=
  prev=next || exchangeOrderStatus.canTransition prev next

end TradeGate.Transitions
